import Tirpc.Lib.Letters

/-!
# The names of generated interfaces (`tirpc_generator.py`)

For every method of a service there is a header, a source file and a test client, with a class in them.
-/

namespace Tirpc

open Lib

namespace Generator

/-- `str.capitalize`. -/
def capitalize : Bytes → Bytes
  | [] => []
  | c :: cs => toUpper c :: cs.map toLower

def toCamel (inputS : Bytes) : Bytes :=
  if (95 : UInt8) ∉ inputS then inputS else (inputS.splitOnP (· = 95)).flatMap capitalize

def toUnderline (inputS : Bytes) : Bytes :=
  ((toCamel inputS).flatMap fun s => if isLower s then [s] else [95, toLower s]).drop 1

/-- An entry of `interface_list`. -/
structure Interface where
  interfaceName : Bytes
  methodName : Bytes
  interfaceClassName : Bytes
  deriving DecidableEq, Repr

/-- What `gen_server` keeps of a method. -/
def interface (methodName : Bytes) : Interface :=
  { interfaceName := toUnderline methodName
    methodName := methodName
    interfaceClassName := toCamel methodName ++ text "Interface" }

/-! ## Files -/

/-- The directories `interface` and `test_client`. -/
inductive Directory where
  | interface
  | testClient
  deriving DecidableEq, Repr

structure FilePath where
  directory : Directory
  name : Bytes
  deriving DecidableEq, Repr

def header (interfaceName : Bytes) : FilePath := ⟨.interface, interfaceName ++ text ".h"⟩

def source (interfaceName : Bytes) : FilePath := ⟨.interface, interfaceName ++ text ".cc"⟩

def testClient (interfaceName : Bytes) : FilePath :=
  ⟨.testClient, text "test_" ++ (interfaceName ++ text "_client.cc")⟩

/-- The files that exist, and what has been written for which method. -/
structure Project where
  files : List FilePath
  written : List (FilePath × Bytes) := []
  deriving DecidableEq, Repr

/-- What `gen_interface_base` leaves in a new project. -/
def newProject : Project := { files := [header (text "interface"), source (text "interface")] }

/-- A file that exists is skipped. -/
def write (methodName : Bytes) (p : Project) (file : FilePath) : Project :=
  if file ∈ p.files then p
  else { files := p.files ++ [file], written := p.written ++ [(file, methodName)] }

/-- The body of the loop. -/
def genInterface (p : Project) (each : Interface) : Project :=
  [header each.interfaceName, source each.interfaceName, testClient each.interfaceName].foldl
    (write each.methodName) p

def genEachInterface (p : Project) (interfaceList : List Interface) : Project := interfaceList.foldl genInterface p

end Generator

end Tirpc
