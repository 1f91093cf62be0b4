import Os161Paging.Argv
import Os161Paging.Tokens

/-!
# The menu

`menu.c`: a line is split at semicolons into commands and each command at
spaces and tabs into words; the first word selects a function of `cmdtable`,
which is called with all of them. Both splittings are done by `strtok_r` in
the line itself, the inner one while the outer one is under way, and the
functions that are called may change the words they are given.

`menuExecute` is that code, on the buffer. `execute` says what it is for, on
the text. They do the same: what is written to the buffer for one command
stays within that command.
-/

namespace Os161Paging.Menu

open Tokens

abbrev Word := List UInt8

def bytesOf (s : String) : Word := s.toByteArray.data.toList

def maxMenuArgs : Nat := 16

def isBlank (x : UInt8) : Bool := (bytesOf " \t").contains x

def isSemicolon (x : UInt8) : Bool := (bytesOf ";").contains x

/-! ## Commands -/

inductive Func where
  | cmdMainmenu | cmdOpsmenu | cmdTestmenu
  | cmdShell | cmdProg | cmdMount | cmdUnmount | cmdBootfs | printfile | cmdChdir | cmdPwd
  | cmdSync | cmdPanic | cmdQuit
  | cmdKheapstats | cmdKheapgeneration | cmdKheapdump
  | arraytest | arraytest2 | bitmaptest | threadlisttest
  | kmalloctest | kmallocstress | kmalloctest3 | kmalloctest4
  | threadtest | threadtest2 | threadtest3 | semtest
  | locktest | cvtest | cvtest2
  | semu (k : Nat)
  | fstest | readstress | writestress | writestress2 | longstress | createstress
deriving DecidableEq, Repr

/-- `cmdtable`, without the tests of the network. -/
def cmdtable : List (Word × Func) :=
  [("?", .cmdMainmenu), ("h", .cmdMainmenu), ("help", .cmdMainmenu), ("?o", .cmdOpsmenu),
    ("?t", .cmdTestmenu), ("s", .cmdShell), ("p", .cmdProg), ("mount", .cmdMount),
    ("unmount", .cmdUnmount), ("bootfs", .cmdBootfs), ("pf", .printfile), ("cd", .cmdChdir),
    ("pwd", .cmdPwd), ("sync", .cmdSync), ("panic", .cmdPanic), ("q", .cmdQuit),
    ("exit", .cmdQuit), ("halt", .cmdQuit), ("kh", .cmdKheapstats),
    ("khgen", .cmdKheapgeneration), ("khdump", .cmdKheapdump), ("at", .arraytest),
    ("at2", .arraytest2), ("bt", .bitmaptest), ("tlt", .threadlisttest), ("km1", .kmalloctest),
    ("km2", .kmallocstress), ("km3", .kmalloctest3), ("km4", .kmalloctest4),
    ("tt1", .threadtest), ("tt2", .threadtest2), ("tt3", .threadtest3), ("sy1", .semtest),
    ("sy2", .locktest), ("sy3", .cvtest), ("sy4", .cvtest2), ("semu1", .semu 1),
    ("semu2", .semu 2), ("semu3", .semu 3), ("semu4", .semu 4), ("semu5", .semu 5),
    ("semu6", .semu 6), ("semu7", .semu 7), ("semu8", .semu 8), ("semu9", .semu 9),
    ("semu10", .semu 10), ("semu11", .semu 11), ("semu12", .semu 12), ("semu13", .semu 13),
    ("semu14", .semu 14), ("semu15", .semu 15), ("semu16", .semu 16), ("semu17", .semu 17),
    ("semu18", .semu 18), ("semu19", .semu 19), ("semu20", .semu 20), ("semu21", .semu 21),
    ("semu22", .semu 22), ("fs1", .fstest), ("fs2", .readstress), ("fs3", .writestress),
    ("fs4", .writestress2), ("fs5", .longstress), ("fs6", .createstress)].map
    fun x => (bytesOf x.1, x.2)

def lookupCommand (name : Word) : Option Func :=
  (cmdtable.find? fun x => !x.1.isEmpty && name == x.1).map (·.2)

inductive Error where
  | E2BIG | EINVAL
  | other (code : Nat)
deriving DecidableEq, Repr

inductive Message where
  /-- `OS/161 kernel: %s` -/
  | kernelArg (command : Word)
  /-- `OS/161 kernel [? for menu]: ` -/
  | menuPrompt
  /-- `Command line has too many words` -/
  | tooManyWords
  /-- `Operation took %llu.%09lu seconds` -/
  | operationTook
  /-- `%s: Command not found` -/
  | notFound (word : Word)
  /-- `Menu command failed: %s` -/
  | commandFailed (err : Error)
deriving DecidableEq, Repr

/-- What has been printed, and the state of the rest of the kernel. -/
structure World (σ : Type) where
  console : List Message
  kernel : σ

/-- What the functions in `cmdtable` do: their result and the words as they leave them. -/
abbrev Kernel (σ : Type) :=
  Func → List Word → σ → Outcome Empty (Option Error × List Word × σ)

variable {σ : Type}

def World.print (w : World σ) (m : Message) : World σ := { w with console := w.console ++ [m] }

/-- The second part of `cmd_dispatch`, on the words of a command. -/
def runCommand (k : Kernel σ) (args : List Word) (w : World σ) :
    Outcome Empty (Option Error × List Word × World σ) :=
  match args with
  | [] => .ok (none, [], w)
  | name :: _ =>
      match lookupCommand name with
      | some f =>
          (k f args w.kernel).bind fun (result, args, s) =>
            .ok (result, args, { w with kernel := s }.print .operationTook)
      | none => .ok (some .EINVAL, args, w.print (.notFound name))

/-! ## In the buffer -/

/-- The loop of `cmd_dispatch` that gathers the words; `none` if there are too many. -/
def gatherArgs (room : Nat) (word context : Option Nat) (args : List Nat) (buf : List UInt8) :
    Outcome Empty (Option (List Nat) × List UInt8) :=
  match word, room with
  | none, _ => .ok (some args, buf)
  | some _, 0 => .ok (none, buf)
  | some a, room + 1 =>
      (strtokR isBlank none context buf).bind fun ((word, context), buf) =>
        gatherArgs room word context (args ++ [a]) buf

def overwrite (buf : List UInt8) (a : Nat) : List UInt8 → List UInt8
  | [] => buf
  | x :: bs => overwrite (buf.set a x) (a + 1) bs

/-- A function has changed the words it was given, in their places. -/
def leaveWords (buf : List UInt8) : List (Nat × Word) → List Word → List UInt8
  | (a, old) :: args, new :: news =>
      leaveWords (overwrite buf a (new.take old.length)) args news
  | _, _ => buf

def cmdDispatch (k : Kernel σ) (cmd : Nat) (buf : List UInt8) (w : World σ) :
    Outcome Empty (Option Error × List UInt8 × World σ) :=
  (strtokR isBlank (some cmd) none buf).bind fun ((word, context), buf) =>
    (gatherArgs maxMenuArgs word context [] buf).bind fun (args, buf) =>
      match args with
      | none => .ok (some .E2BIG, buf, w.print .tooManyWords)
      | some args =>
          let words := args.map (stringAt buf)
          (runCommand k words w).bind fun (result, news, w) =>
            .ok (result, leaveWords buf (args.zip words) news, w)

/-- The loop of `menu_execute`, at most `fuel` times. -/
def menuCommands (k : Kernel σ) (isargs : Bool) (fuel : Nat) (command context : Option Nat)
    (buf : List UInt8) (w : World σ) : Outcome Empty (World σ) :=
  match command, fuel with
  | none, _ => .ok w
  | some _, 0 => .hang
  | some a, fuel + 1 =>
      let w := if isargs then w.print (.kernelArg (stringAt buf a)) else w
      (cmdDispatch k a buf w).bind fun (result, buf, w) =>
        let next (w : World σ) : Outcome Empty (World σ) :=
          (strtokR isSemicolon none context buf).bind fun ((command, context), buf) =>
            menuCommands k isargs fuel command context buf w
        match result with
        | none => next w
        | some err =>
            if isargs then .panic "Failure processing kernel arguments\n"
            else next (w.print (.commandFailed err))

def menuExecute (k : Kernel σ) (line : Nat) (isargs : Bool) (buf : List UInt8) (w : World σ) :
    Outcome Empty (World σ) :=
  (strtokR isSemicolon (some line) none buf).bind fun ((command, context), buf) =>
    menuCommands k isargs buf.length command context buf w

/-- `menu`, up to the point where it waits for more to be typed. -/
def menu (k : Kernel σ) (args : Argv.CString) (typed : List Argv.CString) (w : World σ) :
    Outcome Empty (World σ) :=
  (menuExecute k 0 true args.stored w).bind fun w =>
    typed.foldl (fun o line => o.bind fun w =>
      menuExecute k 0 false line.stored (w.print .menuPrompt)) (.ok w)

/-! ## On the text -/

def runText (k : Kernel σ) (command : Word) (w : World σ) :
    Outcome Empty (Option Error × World σ) :=
  if (pieces isBlank command).length ≤ maxMenuArgs then
    (runCommand k (pieces isBlank command) w).bind fun (result, _, w) => .ok (result, w)
  else .ok (some .E2BIG, w.print .tooManyWords)

/-- The commands are run in turn. A failure is reported; if the commands come from the
command line of the kernel, it is fatal. -/
def execute (k : Kernel σ) (isargs : Bool) : List Word → World σ → Outcome Empty (World σ)
  | [], w => .ok w
  | command :: commands, w =>
      (runText k command (if isargs then w.print (.kernelArg command) else w)).bind
        fun (result, w) =>
          match result with
          | none => execute k isargs commands w
          | some err =>
              if isargs then .panic "Failure processing kernel arguments\n"
              else execute k isargs commands (w.print (.commandFailed err))

def session (k : Kernel σ) (args : Word) (typed : List Word) (w : World σ) :
    Outcome Empty (World σ) :=
  (execute k true (pieces isSemicolon args) w).bind fun w =>
    typed.foldl (fun o line => o.bind fun w =>
      execute k false (pieces isSemicolon line) (w.print .menuPrompt)) (.ok w)

/-! ## What is written to the buffer -/

section Buffer

variable {buf buf' : List UInt8} {a cmd lo hi : Nat} {word context : Option Nat}

theorem overwrite_within : ∀ (bs : List UInt8) (buf : List UInt8) (a : Nat), lo ≤ a →
    a + bs.length ≤ hi → Within lo hi buf (overwrite buf a bs)
  | [], buf, a, _, _ => .refl ..
  | x :: bs, buf, a, hlo, hhi => by
      rw [List.length_cons] at hhi
      exact (Within.set hlo (by omega)).trans
        (overwrite_within bs (buf.set a x) (a + 1) (by omega) (by omega))

theorem leaveWords_within : ∀ (args : List (Nat × Word)) (news : List Word) (buf : List UInt8),
    (∀ x ∈ args, lo ≤ x.1 ∧ x.1 + x.2.length ≤ hi) → Within lo hi buf (leaveWords buf args news)
  | [], _, buf, _ => .refl ..
  | _ :: _, [], buf, _ => .refl ..
  | (a, old) :: args, new :: news, buf, hargs => by
      obtain ⟨hlo, hhi⟩ : lo ≤ a ∧ a + old.length ≤ hi := hargs (a, old) List.mem_cons_self
      have hlen : (new.take old.length).length ≤ old.length := List.length_take_le ..
      exact (overwrite_within _ buf a hlo (by omega)).trans
        (leaveWords_within args news _ fun x hx => hargs x (List.mem_cons_of_mem _ hx))

/-- The string `w` is at `a`, from `lo` up to `hi`. -/
structure Lies (lo hi : Nat) (buf : List UInt8) (a : Nat) (w : Word) : Prop where
  at_ : StringAt buf a w
  lower : lo ≤ a
  upper : a + w.length ≤ hi

/-- The loop over the words finds them all, unless there are too many. -/
theorem gatherArgs_found : ∀ (room lo : Nat) (word context : Option Nat) (args : List Nat)
    (buf : List UInt8) (ws : List Word), Found isBlank lo hi buf word context ws →
    ∃ r buf', gatherArgs room word context args buf = .ok (r, buf') ∧ Within lo hi buf buf' ∧
      ((ws.length ≤ room ∧ ∃ new, r = some (args ++ new) ∧ List.Forall₂ (Lies lo hi buf') new ws) ∨
        (room < ws.length ∧ r = none)) := by
  intro room
  induction room with
  | zero =>
      intro lo word context args buf ws hfound
      cases hfound with
      | none => exact ⟨_, buf, rfl, .refl .., .inl ⟨Nat.le_refl _, [], by simp, .nil⟩⟩
      | word _ _ _ _ => exact ⟨none, buf, rfl, .refl .., .inr ⟨by simp, rfl⟩⟩
  | succ room ih =>
      intro lo word context args buf ws hfound
      cases hfound with
      | none => exact ⟨_, buf, rfl, .refl .., .inl ⟨Nat.zero_le _, [], by simp, .nil⟩⟩
      | @word a w t _ hlo hhi hat hleft =>
          obtain ⟨word', context', buf1, hstrtok, hwithin, hfound'⟩ :=
            strtokR_found isBlank none (by simpa using hleft)
          obtain ⟨r, buf', hgather, hwithin', hr⟩ :=
            ih _ word' context' (args ++ [a]) buf1 _ hfound'
          have hall : Within (a + w.length + 1) hi buf buf' := hwithin.trans hwithin'
          refine ⟨r, buf', ?_, hall.mono (by omega) (Nat.le_refl _), ?_⟩
          · rw [gatherArgs, hstrtok]
            exact hgather
          · rcases hr with ⟨hle, new, rfl, hnew⟩ | ⟨hlt, rfl⟩
            · refine .inl ⟨Nat.succ_le_succ hle, a :: new, by simp, .cons ⟨?_, hlo, hhi⟩ ?_⟩
              · exact hat.keep hall (.inl (by omega))
              · exact hnew.imp fun b v h => ⟨h.at_, by have := h.lower; omega, h.upper⟩
            · exact .inr ⟨Nat.succ_lt_succ hlt, rfl⟩

theorem stringsAt {args : List Nat} {ws : List Word} (h : List.Forall₂ (Lies lo hi buf) args ws) :
    args.map (stringAt buf) = ws := by
  induction h with
  | nil => rfl
  | cons h _ ih => rw [List.map_cons, h.at_.eq, ih]

theorem zip_within {args : List Nat} {ws : List Word}
    (h : List.Forall₂ (Lies lo hi buf) args ws) :
    ∀ x ∈ args.zip ws, lo ≤ x.1 ∧ x.1 + x.2.length ≤ hi := by
  induction h with
  | nil => simp
  | cons h _ ih =>
      intro x hx
      rcases List.mem_cons.mp hx with rfl | hx
      · exact ⟨h.lower, h.upper⟩
      · exact ih x hx

/-- **`cmd_dispatch`** runs the command at `cmd`, and writes nowhere else in the buffer. -/
theorem cmdDispatch_rel {c : Word} (k : Kernel σ) (w : World σ) (hat : StringAt buf cmd c) :
    Outcome.Rel (fun x y => x.1 = y.1 ∧ x.2.2 = y.2 ∧ Within cmd (cmd + c.length) buf x.2.1)
      (cmdDispatch k cmd buf w) (runText k c w) := by
  have hleft : Left cmd (cmd + c.length) buf ((some cmd).or none) c :=
    .inr ⟨cmd, rfl, Nat.le_refl _, Nat.le_refl _, hat⟩
  obtain ⟨word, context, buf1, hstrtok, hwithin, hfound⟩ := strtokR_found isBlank _ hleft
  obtain ⟨r, buf2, hgather, hwithin', hr⟩ := gatherArgs_found maxMenuArgs _ _ _ [] _ _ hfound
  have hall := hwithin.trans hwithin'
  unfold cmdDispatch runText
  simp only [hstrtok, Outcome.bind_ok, hgather]
  rcases hr with ⟨hle, args, rfl, hargs⟩ | ⟨hlt, rfl⟩
  · rw [if_pos hle]
    simp only [List.nil_append, stringsAt hargs]
    refine (Outcome.Rel.refl _).bind ?_
    rintro ⟨result, news, w'⟩ _ rfl
    exact .ok ⟨rfl, rfl, hall.trans (leaveWords_within _ _ _ (zip_within hargs))⟩
  · rw [if_neg (Nat.not_le.mpr hlt)]
    exact .ok ⟨rfl, rfl, hall⟩

/-- **The loop of `menu_execute`** runs the commands that are left. Each round starts further
on, so the bound on the rounds is not reached. -/
theorem menuCommands_eq (k : Kernel σ) (isargs : Bool) : ∀ (fuel lo : Nat)
    (command context : Option Nat) (buf : List UInt8) (cs : List Word) (w : World σ),
    Found isSemicolon lo hi buf command context cs → hi < lo + fuel →
    menuCommands k isargs fuel command context buf w = execute k isargs cs w := by
  intro fuel
  induction fuel with
  | zero =>
      intro lo command context buf cs w hfound hfuel
      cases hfound with
      | none => rfl
      | word hlo hhi _ _ => omega
  | succ fuel ih =>
      intro lo command context buf cs w hfound hfuel
      cases hfound with
      | none => rfl
      | @word a c t _ hlo hhi hat hleft =>
          -- what is left after a command is past everything the command writes
          have hnext : ∀ buf' w', Within a (a + c.length) buf buf' →
              ((strtokR isSemicolon none context buf').bind fun ((command, context), buf) =>
                menuCommands k isargs fuel command context buf w') =
              execute k isargs (pieces isSemicolon t) w' := by
            intro buf' w' hwithin
            have hleft' : Left (a + c.length + 1) hi buf' (none.or context) t := by
              rw [Option.none_or]
              exact hleft.keep hwithin (by omega)
            obtain ⟨command', context', buf1, hstrtok, -, hfound'⟩ :=
              strtokR_found isSemicolon _ hleft'
            rw [hstrtok]
            exact ih _ command' context' buf1 _ w' hfound' (by omega)
          refine Outcome.Rel.eq ?_
          unfold menuCommands execute
          rw [hat.eq]
          refine (cmdDispatch_rel k _ hat).bind ?_
          rintro ⟨result, buf', w'⟩ ⟨_, _⟩ ⟨rfl, rfl, hwithin⟩
          cases result with
          | none =>
              show Outcome.Rel _ (Outcome.bind _ _) _
              rw [hnext buf' w' hwithin]
              exact .refl _
          | some err =>
              cases isargs with
              | true => exact .refl _
              | false =>
                  show Outcome.Rel _ (Outcome.bind _ _) _
                  rw [hnext buf' _ hwithin]
                  exact .refl _

/-- `menu_execute` runs the commands of the line. -/
theorem menuExecute_eq {line : Nat} {l : Word} (k : Kernel σ) (isargs : Bool) (w : World σ)
    (hat : StringAt buf line l) :
    menuExecute k line isargs buf w = execute k isargs (pieces isSemicolon l) w := by
  have hleft : Left line (line + l.length) buf ((some line).or none) l :=
    .inr ⟨line, rfl, Nat.le_refl _, Nat.le_refl _, hat⟩
  obtain ⟨command, context, buf1, hstrtok, hwithin, hfound⟩ := strtokR_found isSemicolon _ hleft
  unfold menuExecute
  rw [hstrtok, Outcome.bind_ok]
  refine menuCommands_eq k isargs _ line _ _ _ _ w hfound ?_
  have hend : buf[line + l.length]? = some 0 := by
    rw [hat.2 _ (Nat.le_refl _)]
    simp
  have := (List.getElem?_eq_some_iff.mp hend).1
  rw [hwithin.length]
  omega

end Buffer

theorem stringAt_stored (s : Argv.CString) : StringAt s.stored 0 s.bytes :=
  .of_drop [] s.noNul rfl

/-- **A session at the menu.** Whatever the functions of `cmdtable` do, and whatever they leave
in the words they are given, the menu does what the text of its lines says. -/
theorem menu_eq_session (k : Kernel σ) (args : Argv.CString) (typed : List Argv.CString)
    (w : World σ) : menu k args typed w = session k args.bytes (typed.map (·.bytes)) w := by
  unfold menu session
  rw [menuExecute_eq k true w (stringAt_stored args)]
  simp only [menuExecute_eq k false _ (stringAt_stored _), List.foldl_map]

/-! ## Every command can be typed -/

/-- A word that can be typed. -/
def Plain (w : Word) : Prop :=
  w ≠ [] ∧ ∀ x ∈ w, x ≠ 0 ∧ isBlank x = false ∧ isSemicolon x = false

instance (w : Word) : Decidable (Plain w) := inferInstanceAs (Decidable (_ ∧ _))

/-- The names in `cmdtable` can be typed, and no name hides another. -/
theorem cmdtable_typable : ∀ e ∈ cmdtable, Plain e.1 ∧ lookupCommand e.1 = some e.2 := by
  decide +kernel

/-- An entry of `cmdtable` with arguments, not too many of them. -/
structure Request where
  entry : Word × Func
  listed : entry ∈ cmdtable
  args : List Word
  plain : ∀ w ∈ args, Plain w
  few : args.length < maxMenuArgs

namespace Request

def words (c : Request) : List Word := c.entry.1 :: c.args

def text (c : Request) : Word := (bytesOf " ").intercalate c.words

theorem plain_words (c : Request) : ∀ w ∈ c.words, Plain w := by
  intro w hw
  rcases List.mem_cons.mp hw with rfl | hw
  · exact (cmdtable_typable c.entry c.listed).1
  · exact c.plain w hw

theorem pieces_text (c : Request) : pieces isBlank c.text = c.words :=
  pieces_intercalate (by decide) c.words fun w hw =>
    ⟨(c.plain_words w hw).1, fun x hx => ((c.plain_words w hw).2 x hx).2.1⟩

theorem of_mem_text {c : Request} {x : UInt8} (hx : x ∈ c.text) :
    x ≠ 0 ∧ isSemicolon x = false := by
  rcases of_mem_intercalate c.words hx with rfl | ⟨w, hw, hxw⟩
  · decide
  · have := (c.plain_words w hw).2 x hxw
    exact ⟨this.1, this.2.2⟩

theorem text_ne_nil (c : Request) : c.text ≠ [] := by
  intro hnil
  have := c.pieces_text
  rw [hnil] at this
  cases this

/-- Typed, a request is a call of its function. -/
theorem runText_text (k : Kernel σ) (c : Request) (w : World σ) :
    runText k c.text w = (k c.entry.2 c.words w.kernel).bind fun (result, _, s) =>
      .ok (result, { w with kernel := s }.print .operationTook) := by
  have hfew : c.words.length ≤ maxMenuArgs := c.few
  unfold runText
  rw [c.pieces_text, if_pos hfew]
  unfold words runCommand
  simp only [(cmdtable_typable c.entry c.listed).2]
  cases k c.entry.2 (c.entry.1 :: c.args) w.kernel <;> rfl

end Request

def lineOf (cs : List Request) : Word := (bytesOf ";").intercalate (cs.map Request.text)

def callAll (k : Kernel σ) : List Request → World σ → Outcome Empty (World σ)
  | [], w => .ok w
  | c :: cs, w =>
      (k c.entry.2 c.words w.kernel).bind fun (result, _, s) =>
        let w := { w with kernel := s }.print .operationTook
        match result with
        | none => callAll k cs w
        | some err => callAll k cs (w.print (.commandFailed err))

theorem pieces_lineOf (cs : List Request) : pieces isSemicolon (lineOf cs) = cs.map (·.text) := by
  refine pieces_intercalate (by decide) _ fun t ht => ?_
  obtain ⟨c, -, rfl⟩ := List.mem_map.mp ht
  exact ⟨c.text_ne_nil, fun x hx => (Request.of_mem_text hx).2⟩

theorem execute_texts (k : Kernel σ) : ∀ (cs : List Request) (w : World σ),
    execute k false (cs.map (·.text)) w = callAll k cs w
  | [], _ => rfl
  | c :: cs, w => by
      have ih := execute_texts k cs
      rw [List.map_cons, execute, callAll]
      simp only [Bool.false_eq_true, if_false, c.runText_text]
      cases k c.entry.2 c.words w.kernel with
      | ok x =>
          obtain ⟨result, news, s⟩ := x
          cases result <;> exact ih _
      | _ => rfl

def storedLine (cs : List Request) : Argv.CString where
  bytes := lineOf cs
  noNul hx := by
    rcases of_mem_intercalate _ hx with h | ⟨t, ht, hxt⟩
    · cases h
    · obtain ⟨c, -, rfl⟩ := List.mem_map.mp ht
      exact (Request.of_mem_text hxt).1 rfl

/-- **Every request can be typed**: any list of functions of `cmdtable`, with any words as
arguments, is called in this order with these words when it is typed on one line. -/
theorem menuExecute_lineOf (k : Kernel σ) (cs : List Request) (w : World σ) :
    menuExecute k 0 false (storedLine cs).stored w = callAll k cs w := by
  rw [menuExecute_eq k false w (stringAt_stored _)]
  show execute k false (pieces isSemicolon (lineOf cs)) w = callAll k cs w
  rw [pieces_lineOf, execute_texts]

end Os161Paging.Menu
