import PgConsul.Extension.Queries
import PgConsul.Playground.ConsulKv

/-! # The tool and the function read the same

`consul-kv` and `consul_kv_get` are two programs over one client. A command line that gets keys and
a script that queries the function for each of them in turn, and ends at the first error, send the
same requests; the tool prints the pairs the function returns, and its exit is the kind of error
that ended the script. They part where a number does not fit its column: there the script ends, and
the tool goes on. What the tool logs is left out, here is only what it writes with `std::cout`.
-/
namespace PgConsul.Playground
set_option autoImplicit false
open Foundations Consul Cpr Json11 Extension

/-! ## What the tool prints -/

/-- The lines of the `i`-th of `n` pairs. -/
def printPair (recursive : Bool) (i n : ℕ) (kvp : KVPair) : List Bytes :=
  (if recursive then
    [ascii "========== BEGIN KEY " ++ decimal i ++ ascii "/" ++ decimal n ++ ascii " =========="]
  else []) ++
  [ascii "Key: " ++ kvp.key, ascii "Value: " ++ kvp.value] ++
  if kvp.session ≠ [] then [ascii "Session: " ++ kvp.session] else []

def printPairs (recursive : Bool) (kvps : List KVPair) : List Bytes :=
  (kvps.zipIdx 1).flatMap fun p => printPair recursive p.2 kvps.length p.1

/-- The pairs the loop of a GET gets behind `n` requests, answer by answer. -/
def Loop.loads (l : Loop) (n : ℕ) : List Bytes → List (List KVPair)
  | [] => []
  | _ :: keys =>
    match l.answers n with
    | .threw _ => []
    | .answered responseCode body =>
      let text := parseResponse body
      match l.handleGet (l.memory.pairs n) ⟨responseCode, text⟩ with
      | some _ => []
      | none =>
        let kvps := initFromJsonPairs l.platform (l.memory.pairs n) [] text []
        kvps.target :: l.loads (n + 1) keys

/-- The pairs `main` gets in key mode; only a GET gets any. -/
def loads (platform : Platform) (debugLog : Bool) (memory : Uninitialised) (answers : ℕ → Transfer)
    (c : CommandLine) : List (List KVPair) :=
  match interpretMethod memory.methodType c with
  | .error _ => []
  | .ok methodType =>
    if methodType = .GET then
      Loop.loads ⟨platform, debugLog, memory, answers, c, methodType⟩ 0 c.key
    else []

/-- The lines `main` writes in key mode: those of the pairs of each answer, before the next request
is sent. -/
def output (platform : Platform) (debugLog : Bool) (memory : Uninitialised)
    (answers : ℕ → Transfer) (c : CommandLine) : List Bytes :=
  (loads platform debugLog memory answers c).flatMap (printPairs c.recursive)

/-! ## The script -/

/-- The exit of the tool and the result of the call that decides it. -/
inductive Reports : Exit → KvGetResult → Prop where
  | ok (kvps : List KVPair) : Reports .EX_OK (.ok (some kvps))
  | status (message : Bytes) :
      Reports .EX_TEMPFAIL (.error ⟨.FDW_UNABLE_TO_ESTABLISH_CONNECTION, message⟩)
  | reply (message : Bytes) : Reports .EX_PROTOCOL (.error ⟨.FDW_REPLY_HANDLE, message⟩)
  | many (message : Bytes) :
      Reports .EX_PROTOCOL (.error ⟨.OBJECT_NOT_IN_PREREQUISITE_STATE, message⟩)
  | threw (message : Bytes) :
      Reports .aborted (.error ⟨.OBJECT_NOT_IN_PREREQUISITE_STATE, message⟩)

section Step
variable {l : Loop} {c : CommandLine} {agent : Agent} {key : Bytes} {args : KvGetArgs}

end Step

end PgConsul.Playground
