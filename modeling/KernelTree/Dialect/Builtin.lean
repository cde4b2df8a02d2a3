import KernelTree.Dialect.Basic
/-! The target languages known by name: C++ for the host, CUDA, OpenCL and Metal. -/
namespace KernelTree.Dialect

/-- The families of thread coordinates. -/
inductive Coordinate where
  | innerId
  | outerId
  | innerDim
  | outerDim
deriving DecidableEq, Repr

namespace Coordinate

def all : List Coordinate := [innerId, outerId, innerDim, outerDim]

def name : Coordinate → String
  | innerId => "inner_id"
  | outerId => "outer_id"
  | innerDim => "inner_dim"
  | outerDim => "outer_dim"

def axes : List (Nat × String) := [(0, "x"), (1, "y"), (2, "z")]

/-- Reads the name of a coordinate: its family and, as a number and a letter, its axis. -/
def ofName? (name : String) : Option (Coordinate × Nat × String) :=
  all.findSome? fun c => axes.findSome? fun (number, letter) =>
    if name = c.name ++ toString number then some (c, number, letter) else none

end Coordinate

/-- Respells the coordinates and leaves other names alone. -/
def mapCoordinate (spell : Coordinate → Nat → String → String) (name : String) : String :=
  match Coordinate.ofName? name with
  | some (c, number, letter) => spell c number letter
  | none => name

/-- Drops the pragmas of OpenMP, which mean nothing on a device. -/
def dropOpenMP (text : String) : Option String :=
  if "omp".toList.isPrefixOf text.toList then none else some text

/-- Plain C++. Coordinates are variables of the surrounding launcher. -/
def serial : Dialect where
  name := "serial"
  extension := ".cpp"
  style := .spaces 2
  qualifier
    | .const => some "const"
    | .volatile => some "volatile"
    | .restrict => some "__restrict__"
    | .global | .shared | .constant => none
  functionPrefix
    | .kernel => some "extern \"C\""
    | .device | .plain => none
  identifier := mapCoordinate fun c number _ => "_" ++ c.name ++ toString number

def cuda : Dialect where
  name := "cuda"
  extension := ".cu"
  style := .spaces 2
  qualifier
    | .const => some "const"
    | .volatile => some "volatile"
    | .restrict => some "__restrict__"
    | .global => none
    | .shared => some "__shared__"
    | .constant => some "__constant__"
  functionPrefix
    | .kernel => some "extern \"C\" __global__"
    | .device => some "__device__"
    | .plain => none
  identifier name :=
    if name = "barrier" then "__syncthreads"
    else mapCoordinate (fun c _ letter => base c ++ "." ++ letter) name
  pragma := dropOpenMP
where
  /-- The vector of a family of coordinates. -/
  base : Coordinate → String
    | .innerId => "threadIdx"
    | .outerId => "blockIdx"
    | .innerDim => "blockDim"
    | .outerDim => "gridDim"

/-- C for compute devices. It has no namespaces, and coordinates are calls. -/
def opencl : Dialect where
  name := "opencl"
  extension := ".cl"
  style := (Style.spaces 4).uncuddled
  qualifier
    | .const => some "const"
    | .volatile => some "volatile"
    | .restrict => some "restrict"
    | .global => some "__global"
    | .shared => some "__local"
    | .constant => some "__constant"
  functionPrefix
    | .kernel => some "__kernel"
    | .device | .plain => none
  identifier := mapCoordinate fun c number _ => call c ++ "(" ++ toString number ++ ")"
  pragma := dropOpenMP
  namespaces := false
where
  /-- The function of a family of coordinates. -/
  call : Coordinate → String
    | .innerId => "get_local_id"
    | .outerId => "get_group_id"
    | .innerDim => "get_local_size"
    | .outerDim => "get_num_groups"

/-- The shading language of Metal. Coordinates are parameters of the kernel. -/
def metal : Dialect where
  name := "metal"
  extension := ".metal"
  style := (Style.spaces 4).allman
  qualifier
    | .const => some "const"
    | .volatile => some "volatile"
    | .restrict => none
    | .global => some "device"
    | .shared => some "threadgroup"
    | .constant => some "constant"
  functionPrefix
    | .kernel => some "kernel"
    | .device | .plain => none
  identifier := mapCoordinate fun c _ letter => base c ++ "." ++ letter
  pragma := dropOpenMP
  prelude := some "#include <metal_stdlib>\nusing namespace metal;\n"
where
  /-- The vector of a family of coordinates. -/
  base : Coordinate → String
    | .innerId => "thread_pos"
    | .outerId => "group_pos"
    | .innerDim => "group_size"
    | .outerDim => "grid_groups"

/-- The target languages in the order in which they are listed. -/
def builtins : List Dialect := [serial, cuda, opencl, metal]

def ofName? : String → Option Dialect
  | "serial" | "cpp" | "c++" => some serial
  | "cuda" => some cuda
  | "opencl" | "cl" => some opencl
  | "metal" | "msl" => some metal
  | _ => none

end KernelTree.Dialect
