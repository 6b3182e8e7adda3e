import Mathlib.Algebra.GroupWithZero.Nat
import Ptptl.Ptp.CString

set_option autoImplicit false

/-! # The command line -/

namespace Sfs

open Ptp

inductive Opt where
  | search (url str : CString)
  | get (url path : CString)
  | share (dir : CString)
  | port (text : CString)
  | proxy (url : CString)
deriving DecidableEq

def dashed (name : String) : CString := CString.ofBuffer (ascii ("--" ++ name))

def Opt.words : Opt → List CString
  | .search url str => [dashed "search", url, str]
  | .get url path => [dashed "get", url, path]
  | .share dir => [dashed "share", dir]
  | .port text => [dashed "port", text]
  | .proxy url => [dashed "proxy", url]

/-- `MatchOpt`, where `args` goes up to the NULL at the end of `argv`. -/
def matchOpt (args : List CString) (s2 : String) (count : Nat) : Bool :=
  match args with
  | [] => false
  | s1 :: _ => s1.val.take 2 = ascii "--" && s1.val.drop 2 = ascii s2 && count ≤ args.length

/-- The local variables of `HandleOpts`, and the branches that were run with their arguments. -/
structure Session where
  localPort : UInt16 := 8080
  dirs : List CString := []
  executed : List Opt := []
deriving DecidableEq

def Session.run (ulong : Nat) (session : Session) (opt : Opt) : Session :=
  let session := { session with executed := session.executed ++ [opt] }
  match opt with
  | .share dir => { session with dirs := dir :: session.dirs }
  | .port text => { session with localPort := UInt16.ofNat (strtoul ulong text.val) }
  | .search _ _ | .get _ _ | .proxy _ => session

inductive Finish where
  | usage
  | rescan
deriving DecidableEq

/-- The loop of `HandleOpts` from `i` on; an argument behind the NULL has no value. -/
def handleOptsFrom (ulong : Nat) (argv : List CString) :
    Nat → Nat → Session → Option (Session × Finish)
  | 0, _, _ => none
  | fuel + 1, i, session =>
    if argv.length ≤ i then some (session, .rescan)
    else
      let args := argv.drop i
      let i := i + 1
      if matchOpt args "search" 3 then do
        let url ← args[1]?
        let str ← args[2]?
        handleOptsFrom ulong argv fuel (i + 2) (session.run ulong (.search url str))
      else if matchOpt args "get" 3 then do
        let url ← args[1]?
        let path ← args[2]?
        -- the path is not passed
        handleOptsFrom ulong argv fuel (i + 1) (session.run ulong (.get url path))
      else if matchOpt args "share" 2 then do
        let dir ← args[1]?
        handleOptsFrom ulong argv fuel (i + 1) (session.run ulong (.share dir))
      else if matchOpt args "port" 2 then do
        let text ← args[1]?
        handleOptsFrom ulong argv fuel (i + 1) (session.run ulong (.port text))
      else if matchOpt args "proxy" 2 then do
        let url ← args[1]?
        handleOptsFrom ulong argv fuel (i + 1) (session.run ulong (.proxy url))
      else some (session, .usage)

def handleOpts (ulong : Nat) (argv : List CString) : Option (Session × Finish) :=
  handleOptsFrom ulong argv argv.length 1 {}

/-- Each option is run once, in order and with its own arguments, and then comes the scan. -/
def Executes (ulong : Nat) (prog : CString) (options : List Opt) : Prop :=
  ∃ session, handleOpts ulong (prog :: options.flatMap Opt.words) = some (session, .rescan) ∧
    session.executed = options

def Opt.advance : Opt → Nat
  | .search _ _ => 3
  | .get _ _ | .share _ | .port _ | .proxy _ => 2

variable {ulong : Nat} {argv : List CString} {i fuel : Nat} {session : Session}

@[simp] theorem run_executed (session : Session) (opt : Opt) :
    (session.run ulong opt).executed = session.executed ++ [opt] := by
  cases opt <;> rfl

theorem matchOpt_some {args : List CString} {s2 : String} {count : Nat}
    (found : matchOpt args s2 count = true) : count ≤ args.length := by
  cases args with
  | nil => simp [matchOpt] at found
  | cons s1 rest =>
    simp only [matchOpt, Bool.and_eq_true, decide_eq_true_eq] at found
    exact found.2

theorem arg_of_le {args : List CString} {count place : Nat} (enough : count ≤ args.length)
    (inside : place < count) : ∃ arg, args[place]? = some arg :=
  ⟨args[place], List.getElem?_eq_getElem (Nat.lt_of_lt_of_le inside enough)⟩

theorem handleOptsFrom_cases (ulong : Nat) (fuel : Nat) (session : Session)
    (more : i < argv.length) :
    handleOptsFrom ulong argv (fuel + 1) i session = some (session, .usage) ∨
      ∃ opt : Opt, i + opt.advance ≤ argv.length ∧
        handleOptsFrom ulong argv (fuel + 1) i session =
          handleOptsFrom ulong argv fuel (i + opt.advance) (session.run ulong opt) := by
  have length : (argv.drop i).length = argv.length - i := List.length_drop
  have inside (count : Nat) (enough : count ≤ (argv.drop i).length) : i + count ≤ argv.length := by
    omega
  simp only [handleOptsFrom, Nat.not_le.2 more, if_false]
  by_cases search : matchOpt (argv.drop i) "search" 3 = true
  · have enough := matchOpt_some search
    obtain ⟨url, one⟩ := arg_of_le enough (by decide : 1 < 3)
    obtain ⟨str, two⟩ := arg_of_le enough (by decide : 2 < 3)
    refine .inr ⟨.search url str, inside 3 enough, ?_⟩
    simp [search, one, two, Opt.advance, Nat.add_assoc]
  by_cases get : matchOpt (argv.drop i) "get" 3 = true
  · have enough := matchOpt_some get
    obtain ⟨url, one⟩ := arg_of_le enough (by decide : 1 < 3)
    obtain ⟨path, two⟩ := arg_of_le enough (by decide : 2 < 3)
    refine .inr ⟨.get url path, inside 2 (Nat.le_of_succ_le enough), ?_⟩
    simp [search, get, one, two, Opt.advance, Nat.add_assoc]
  by_cases share : matchOpt (argv.drop i) "share" 2 = true
  · have enough := matchOpt_some share
    obtain ⟨dir, one⟩ := arg_of_le enough (by decide : 1 < 2)
    refine .inr ⟨.share dir, inside 2 enough, ?_⟩
    simp [search, get, share, one, Opt.advance, Nat.add_assoc]
  by_cases port : matchOpt (argv.drop i) "port" 2 = true
  · have enough := matchOpt_some port
    obtain ⟨text, one⟩ := arg_of_le enough (by decide : 1 < 2)
    refine .inr ⟨.port text, inside 2 enough, ?_⟩
    simp [search, get, share, port, one, Opt.advance, Nat.add_assoc]
  by_cases proxy : matchOpt (argv.drop i) "proxy" 2 = true
  · have enough := matchOpt_some proxy
    obtain ⟨url, one⟩ := arg_of_le enough (by decide : 1 < 2)
    refine .inr ⟨.proxy url, inside 2 enough, ?_⟩
    simp [search, get, share, port, proxy, one, Opt.advance, Nat.add_assoc]
  · simp [search, get, share, port, proxy]

theorem Opt.advance_pos (opt : Opt) : 2 ≤ opt.advance := by
  cases opt <;> simp [Opt.advance]

theorem handleOptsFrom_ends (ulong : Nat) (inside : i ≤ argv.length) (enough : argv.length - i < fuel)
    (session : Session) :
    ∃ last finish, handleOptsFrom ulong argv fuel i session = some (last, finish) ∧
      ∃ new, last.executed = session.executed ++ new ∧
        (finish = .rescan → argv.length = i + (new.map Opt.advance).sum) := by
  induction fuel generalizing i session with
  | zero => omega
  | succ fuel ih =>
    by_cases more : i < argv.length
    · rcases handleOptsFrom_cases ulong fuel session more with usage | ⟨opt, within, turn⟩
      · exact ⟨session, .usage, usage, [], by simp, fun absurd => by cases absurd⟩
      · have passed := opt.advance_pos
        obtain ⟨last, finish, ran, new, executed, sum⟩ :=
          ih within (by omega) (session.run ulong opt)
        refine ⟨last, finish, turn.trans ran, opt :: new, ?_, fun finished => ?_⟩
        · rw [executed, run_executed, List.append_assoc, List.singleton_append]
        · rw [List.map_cons, List.sum_cons, sum finished, Nat.add_assoc]
    · refine ⟨session, .rescan, ?_, [], by simp, fun _ => ?_⟩
      · rw [handleOptsFrom, if_pos (Nat.not_lt.1 more)]
      · simp
        omega

theorem matchOpt_dashed (name s2 : String) (rest : List CString) (count : Nat)
    (clean : (0 : Byte) ∉ ascii ("--" ++ name)) :
    matchOpt (dashed name :: rest) s2 count =
      (decide (ascii name = ascii s2) && decide (count ≤ rest.length + 1)) := by
  have text : ascii ("--" ++ name) = ascii "--" ++ ascii name := by
    simp [ascii, String.toList_append]
  have val : (dashed name).val = ascii "--" ++ ascii name := (cString_eq clean).trans text
  have two : (ascii "--").length = 2 := by decide
  rw [matchOpt, val, ← two, List.take_left, List.drop_left]
  simp

theorem handleOptsFrom_turn (opt : Opt) (other : ∀ url path, opt ≠ .get url path)
    {rest : List CString} (here : argv.drop i = opt.words ++ rest) (fuel : Nat)
    (session : Session) :
    handleOptsFrom ulong argv (fuel + 1) i session =
      handleOptsFrom ulong argv fuel (i + opt.words.length) (session.run ulong opt) := by
  have more : ¬ argv.length ≤ i := by
    intro beyond
    rw [List.drop_of_length_le beyond] at here
    cases opt <;> simp [Opt.words] at here
  have search (s2 : String) (rest : List CString) (count : Nat) :=
    matchOpt_dashed "search" s2 rest count (by decide)
  have share (s2 : String) (rest : List CString) (count : Nat) :=
    matchOpt_dashed "share" s2 rest count (by decide)
  have port (s2 : String) (rest : List CString) (count : Nat) :=
    matchOpt_dashed "port" s2 rest count (by decide)
  have proxy (s2 : String) (rest : List CString) (count : Nat) :=
    matchOpt_dashed "proxy" s2 rest count (by decide)
  -- the names differ
  have names : (["proxy", "port", "share", "get", "search"].map ascii).Nodup := by decide
  simp only [List.map_cons, List.map_nil, List.nodup_cons, List.mem_cons, not_or] at names
  rw [handleOptsFrom, if_neg more, here]
  cases opt with
  | get url path => exact absurd rfl (other url path)
  | search url str => simp [Opt.words, search, Nat.add_assoc]
  | share dir => simp [Opt.words, share, names, Nat.add_assoc]
  | port text => simp [Opt.words, port, names, Nat.add_assoc]
  | proxy url => simp [Opt.words, proxy, names, Nat.add_assoc]

theorem handleOptsFrom_words {options : List Opt} (other : ∀ url path, .get url path ∉ options)
    (inside : i ≤ argv.length) (here : argv.drop i = options.flatMap Opt.words)
    (enough : options.length < fuel) (session : Session) :
    handleOptsFrom ulong argv fuel i session =
      some (options.foldl (Session.run ulong) session, .rescan) := by
  induction options generalizing i fuel session with
  | nil =>
    obtain ⟨fuel, rfl⟩ := Nat.exists_eq_succ_of_ne_zero (Nat.ne_of_gt enough)
    have beyond : argv.length ≤ i := by simpa using here
    rw [handleOptsFrom, if_pos beyond]
    rfl
  | cons opt options ih =>
    obtain ⟨fuel, rfl⟩ := Nat.exists_eq_succ_of_ne_zero (Nat.ne_of_gt (Nat.zero_lt_of_lt enough))
    rw [List.flatMap_cons] at here
    have own : ∀ url path, opt ≠ .get url path := by
      rintro url path rfl
      exact other url path List.mem_cons_self
    have behind : argv.drop (i + opt.words.length) = options.flatMap Opt.words := by
      rw [← List.drop_drop, here, List.drop_left]
    have lengths := congrArg List.length here
    rw [List.length_drop, List.length_append] at lengths
    rw [handleOptsFrom_turn opt own here, List.foldl_cons]
    exact ih (fun url path member => other url path (List.mem_cons_of_mem _ member)) (by omega)
      behind (Nat.lt_of_succ_lt_succ enough) _

theorem foldl_executed (options : List Opt) (session : Session) :
    (options.foldl (Session.run ulong) session).executed = session.executed ++ options := by
  induction options generalizing session with
  | nil => simp
  | cons opt options ih => rw [List.foldl_cons, ih, run_executed, List.append_assoc]; rfl

theorem Opt.advance_words (opt : Opt) : opt.advance ≤ opt.words.length ∧
    (opt.advance = opt.words.length → ∀ url path, opt ≠ .get url path) := by
  cases opt <;> simp [Opt.advance, Opt.words]

theorem advance_sum (options : List Opt) :
    options.length ≤ (options.map Opt.advance).sum ∧
      (options.map Opt.advance).sum ≤ (options.flatMap Opt.words).length ∧
      ((options.map Opt.advance).sum = (options.flatMap Opt.words).length →
        ∀ url path, .get url path ∉ options) := by
  induction options with
  | nil => simp
  | cons opt options ih =>
    have own := opt.advance_words
    have some_ := opt.advance_pos
    rw [List.map_cons, List.sum_cons, List.flatMap_cons, List.length_append, List.length_cons]
    refine ⟨by omega, by omega, fun same url path member => ?_⟩
    rcases List.mem_cons.1 member with rfl | member
    · exact own.2 (by omega) url path rfl
    · exact ih.2.2 (by omega) url path member

theorem handleOpts_executes_iff (ulong : Nat) (prog : CString) (options : List Opt) :
    Executes ulong prog options ↔ ∀ url path, .get url path ∉ options := by
  have start : 1 ≤ (prog :: options.flatMap Opt.words).length := by simp
  have sums := advance_sum options
  constructor
  · rintro ⟨session, ran, executed⟩
    obtain ⟨last, finish, ran', new, grown, passed⟩ :=
      handleOptsFrom_ends ulong start (Nat.sub_lt start Nat.one_pos) {}
    obtain ⟨rfl, rfl⟩ := Prod.mk.inj (Option.some.inj (ran'.symm.trans ran))
    have same : new = options := by simpa [executed] using grown.symm
    have sum := passed rfl
    rw [same, List.length_cons] at sum
    exact sums.2.2 (by omega)
  · intro other
    have enough : options.length < (prog :: options.flatMap Opt.words).length := by
      rw [List.length_cons]
      omega
    refine ⟨_, handleOptsFrom_words other start rfl enough {}, ?_⟩
    rw [foldl_executed]
    rfl

/-- The path of a `--get` is taken for the next option. -/
theorem handleOpts_usage :
    handleOpts 4294967296 (CString.ofBuffer (ascii "sfs") :: [Opt.get
        (CString.ofBuffer (ascii "http://h/1/2")) (CString.ofBuffer (ascii "out"))].flatMap
          Opt.words) =
      some ({ executed := [.get (CString.ofBuffer (ascii "http://h/1/2"))
        (CString.ofBuffer (ascii "out"))] }, .usage) ∧
    ¬ Executes 4294967296 (CString.ofBuffer (ascii "sfs"))
      [.get (CString.ofBuffer (ascii "http://h/1/2")) (CString.ofBuffer (ascii "out"))] := by
  have ran : handleOpts 4294967296 (CString.ofBuffer (ascii "sfs") :: [Opt.get
        (CString.ofBuffer (ascii "http://h/1/2")) (CString.ofBuffer (ascii "out"))].flatMap
          Opt.words) =
      some ({ executed := [.get (CString.ofBuffer (ascii "http://h/1/2"))
        (CString.ofBuffer (ascii "out"))] }, .usage) := by decide +kernel
  refine ⟨ran, ?_⟩
  rintro ⟨session, ran', -⟩
  have same := (Prod.mk.inj (Option.some.inj (ran.symm.trans ran'))).2
  cases same

end Sfs
