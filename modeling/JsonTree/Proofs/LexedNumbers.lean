import JsonTree.Proofs.NumeralLanguage
import JsonTree.Proofs.TokenLexing

/-!
# The texts that are a single number

The reader of tokens goes through a text character by character and is always inside a known part
of it: behind tokens that are complete, and at some place in a further one. Number tokens were read
from numerals, and of a text without space a lone number token leaves nothing over.

- `Lexer.Holds`: what a text holds, as far as numbers are concerned.
- `Lexer.Tracks`: how a state of the reader stands to what it has read; `Lexer.Tracks.step` and
  `Lexer.tracks_foldl`: every step keeps to it.
- `Token.lex_eq_number_iff`: the texts that are one number.
-/

namespace JsonTree

namespace Lexer

/-- Any token but a number. -/
def NoNumber : Token → Prop
  | .num _ => False
  | _ => True

/-- The text holds these tokens, last first: each number token stands for a numeral of its number,
and nothing but space stands between tokens. Of the other tokens it is only said that they take up
some part of the text. -/
inductive Holds : List Token → List Char → Prop where
  | nil : Holds [] []
  | space {tokens : List Token} {cs : List Char} {c : Char} (before : Holds tokens cs)
      (isSpace : isJsonSpace c) : Holds tokens (cs ++ [c])
  | number {tokens : List Token} {cs lexeme : List Char} {m : MachineNumber}
      (before : Holds tokens cs) (isNumeral : IsNumeral lexeme)
      (isNumber : MachineNumber.ofNumeral? lexeme = some m) :
      Holds (.num m :: tokens) (cs ++ lexeme)
  | other {tokens : List Token} {cs : List Char} {token : Token} (before : Holds tokens cs)
      (noNumber : NoNumber token) (lexeme : List Char) : Holds (token :: tokens) (cs ++ lexeme)

/-- What has been read of the token that a mode stands in. -/
def Mode.Pending : Mode → List Char → Prop
  | .between, cs => cs = []
  | .number state done, cs => done = cs.reverse ∧ Numeral.run .start cs = (state, [])
  | .word _ token, _ => NoNumber token
  | _, _ => True

/-- What has been read is the complete tokens and what is pending behind them. -/
inductive Tracks (s : State) : List Char → Prop where
  | mk {done pending : List Char} (holds : Holds s.tokens done) (inside : s.mode.Pending pending) :
      Tracks s (done ++ pending)

variable {s t : State} {done pending cs : List Char} {c : Char}

namespace Tracks

theorem between (h : Holds s.tokens done) : Tracks (s.goto .between) done := by
  have hnone : Tracks (s.goto .between) (done ++ []) := .mk h rfl
  rwa [List.append_nil] at hnone

/-- A token other than a number is complete with any part of the text. -/
theorem emit (h : Holds s.tokens done) {token : Token} (htoken : NoNumber token)
    (lexeme : List Char) : Tracks (s.emit token) (done ++ lexeme) := by
  have hnone : Tracks (s.emit token) (done ++ lexeme ++ []) := .mk (.other h htoken lexeme) rfl
  rwa [List.append_nil] at hnone

/-- Behind a character that cannot stand where it does, nothing more is said. -/
theorem failed (h : Holds s.tokens done) (pending : List Char) :
    Tracks (s.goto .failed) (done ++ pending) := .mk h trivial

/-- A test leads to one of two states. -/
theorem ite {p : Prop} [Decidable p] (hpos : p → Tracks s cs) (hneg : ¬ p → Tracks t cs) :
    Tracks (if p then s else t) cs := by
  split
  · rename_i h
    exact hpos h
  · rename_i h
    exact hneg h

/-! ## Steps -/

/-- A character between tokens is space, or begins a token, or cannot stand there. -/
theorem step_between (h : Holds s.tokens done) (c : Char) : Tracks (s.between c) (done ++ [c]) := by
  have hemit : ∀ token, NoNumber token → Tracks (s.emit token) (done ++ [c]) :=
    fun token htoken => .emit h htoken [c]
  have hword : ∀ letters token, NoNumber token →
      Tracks (s.goto (.word letters token)) (done ++ [c]) :=
    fun letters token htoken => .mk h htoken
  unfold State.between
  refine .ite (fun hspace => .between (.space h hspace)) fun _ => ?_
  refine .ite (fun _ => hemit .openArray trivial) fun _ => ?_
  refine .ite (fun _ => hemit .closeArray trivial) fun _ => ?_
  refine .ite (fun _ => hemit .openObject trivial) fun _ => ?_
  refine .ite (fun _ => hemit .closeObject trivial) fun _ => ?_
  refine .ite (fun _ => hemit .comma trivial) fun _ => ?_
  refine .ite (fun _ => hemit .colon trivial) fun _ => ?_
  refine .ite (fun _ => hword _ .null trivial) fun _ => ?_
  refine .ite (fun _ => hword _ (.bool true) trivial) fun _ => ?_
  refine .ite (fun _ => hword _ (.bool false) trivial) fun _ => ?_
  refine .ite (fun _ => .mk h trivial) fun _ => ?_
  cases hstep : Numeral.State.start.step? c with
  | some state => exact .mk h ⟨rfl, Numeral.run_cons_iff.2 ⟨state, hstep, rfl⟩⟩
  | none => exact .failed h [c]

theorem step_word {letters : List Char} {token : Token} {tokens : List Token}
    (h : Holds tokens done) (htoken : NoNumber token) (c : Char) (pending : List Char) :
    Tracks (Lexer.step ⟨.word letters token, tokens⟩ c) (done ++ pending) := by
  match letters with
  | [] => exact .failed h pending
  | [l] => exact .ite (fun _ => .emit h htoken pending) fun _ => .failed h pending
  | l :: l' :: ls => exact .ite (fun _ => .mk h htoken) fun _ => .failed h pending

theorem step_string {string : List Char} {tokens : List Token} (h : Holds tokens done) (c : Char)
    (pending : List Char) : Tracks (Lexer.step ⟨.string string, tokens⟩ c) (done ++ pending) := by
  have hclosed : NoNumber (.str (String.ofList string.reverse)) := trivial
  refine .ite (fun _ => .emit h hclosed pending) fun _ => ?_
  refine .ite (fun _ => .mk h trivial) fun _ => ?_
  exact .ite (fun _ => .failed h pending) fun _ => .mk h trivial

theorem step_escape {string : List Char} {tokens : List Token} (h : Holds tokens done) (c : Char)
    (pending : List Char) : Tracks (Lexer.step ⟨.escape string, tokens⟩ c) (done ++ pending) := by
  refine .ite (fun _ => .mk h trivial) fun _ => ?_
  cases unescapeLetter? c with
  | some d => exact .mk h trivial
  | none => exact .failed h pending

theorem end_unit (h : Holds s.tokens done) (string : List Char) (high : Option Nat) (value : Nat)
    (pending : List Char) : Tracks (s.endUnit string high value) (done ++ pending) := by
  cases high with
  | some high => exact .ite (fun _ => .mk h trivial) fun _ => .failed h pending
  | none =>
    refine .ite (fun _ => .mk h trivial) fun _ => ?_
    exact .ite (fun _ => .failed h pending) fun _ => .mk h trivial

theorem step_unit {string : List Char} {high : Option Nat} {missing value : Nat}
    {tokens : List Token} (h : Holds tokens done) (c : Char) (pending : List Char) :
    Tracks (Lexer.step ⟨.unit string high missing value, tokens⟩ c) (done ++ pending) := by
  unfold Lexer.step
  cases hexDigit? c with
  | some d => exact .ite (fun _ => end_unit h string high _ pending) fun _ => .mk h trivial
  | none => exact .failed h pending

end Tracks

/-- The end of a number: its characters are a numeral of the number that is emitted, or the reader
fails. -/
theorem endNumber_cases (s : State) {state : Numeral.State} {lexeme : List Char}
    (hrun : Numeral.run .start lexeme = (state, [])) :
    (∃ m, IsNumeral lexeme ∧ MachineNumber.ofNumeral? lexeme = some m ∧
        s.endNumber state lexeme.reverse = s.emit (.num m)) ∨
      s.endNumber state lexeme.reverse = s.goto .failed := by
  by_cases hstate : state.accepting
  · cases hnumeral : MachineNumber.ofNumeral? lexeme with
    | none =>
      refine Or.inr ?_
      unfold State.endNumber
      rw [if_pos hstate, List.reverse_reverse, hnumeral]
    | some m =>
      refine Or.inl ⟨m, (Numeral.isNumeral_iff_accepting hrun).2 hstate, rfl, ?_⟩
      exact endNumber_eq hstate (by rw [List.reverse_reverse, hnumeral]) s
  · refine Or.inr ?_
    unfold State.endNumber
    rw [if_neg hstate]

namespace Tracks

/-- A character behind a number goes on with it, or ends it and stands between tokens. -/
theorem step_number {tokens : List Token} {state : Numeral.State} (h : Holds tokens done)
    (hrun : Numeral.run .start pending = (state, [])) (c : Char) :
    Tracks (Lexer.step ⟨.number state pending.reverse, tokens⟩ c) (done ++ (pending ++ [c])) := by
  unfold Lexer.step
  cases hstep : state.step? c with
  | some next =>
    simp only [hstep]
    exact .mk h ⟨List.reverse_concat.symm, Numeral.run_concat_iff.2 ⟨state, hrun, hstep⟩⟩
  | none =>
    simp only [hstep]
    rcases endNumber_cases ⟨.number state pending.reverse, tokens⟩ hrun with
      ⟨m, hnumeral, hm, hend⟩ | hend
    · rw [hend, if_pos (by rfl), ← List.append_assoc]
      exact step_between (.number h hnumeral hm) c
    · rw [hend, if_neg nofun]
      exact failed h _

/-- A step keeps track of the text. -/
theorem step (h : Tracks s cs) (c : Char) : Tracks (Lexer.step s c) (cs ++ [c]) := by
  obtain ⟨mode, tokens⟩ := s
  obtain @⟨done, pending, holds, inside⟩ := h
  rw [List.append_assoc]
  -- only between tokens and inside a number does it matter what has been read of the token
  cases mode with
  | between =>
    obtain rfl : pending = [] := inside
    exact step_between holds c
  | word letters token => exact step_word holds inside c _
  | string string => exact step_string holds c _
  | escape string => exact step_escape holds c _
  | unit string high missing value => exact step_unit holds c _
  | surrogate string high => exact .ite (fun _ => .mk holds trivial) fun _ => .failed holds _
  | surrogateEscape string high => exact .ite (fun _ => .mk holds trivial) fun _ => .failed holds _
  | number state string =>
    obtain ⟨rfl, hrun⟩ := inside
    exact step_number holds hrun c
  | failed => exact .mk holds trivial

end Tracks

/-- The reader keeps track of the whole text. -/
theorem tracks_foldl (cs : List Char) : Tracks (cs.foldl step ⟨.between, []⟩) cs := by
  induction cs using List.reverseRecOn with
  | nil => exact .between (s := ⟨.between, []⟩) .nil
  | append_singleton cs c ih =>
    rw [List.foldl_append]
    exact ih.step c

/-- A text that ends between tokens holds its tokens, and nothing else. -/
theorem Tracks.finish (h : Tracks s cs) (hmode : (finish s).mode = .between) :
    Holds (finish s).tokens cs := by
  obtain ⟨mode, tokens⟩ := s
  obtain @⟨done, pending, holds, inside⟩ := h
  cases mode with
  | between =>
    obtain rfl : pending = [] := inside
    rwa [List.append_nil]
  | number state string =>
    obtain ⟨rfl, hrun⟩ := inside
    change (State.endNumber _ state pending.reverse).mode = .between at hmode
    show Holds (State.endNumber _ state pending.reverse).tokens _
    rcases endNumber_cases ⟨.number state pending.reverse, tokens⟩ hrun with
      ⟨m, hnumeral, hm, hend⟩ | hend
    · rw [hend]
      exact .number holds hnumeral hm
    · rw [hend] at hmode
      cases hmode
  | _ => cases hmode

/-! ## A lone number -/

theorem Holds.all_space (h : Holds [] cs) : ∀ c ∈ cs, isJsonSpace c := by
  generalize htokens : ([] : List Token) = tokens at h
  induction h with
  | nil => exact List.forall_mem_nil _
  | space before isSpace ih =>
    rw [List.forall_mem_append, List.forall_mem_singleton]
    exact ⟨ih htokens, isSpace⟩
  | number => cases htokens
  | other => cases htokens

/-- Where no space stands, a lone number takes up the whole text. -/
theorem Holds.of_single {m : MachineNumber} (h : Holds [.num m] cs)
    (hspace : ∀ c ∈ cs, isJsonSpace c = false) :
    IsNumeral cs ∧ MachineNumber.ofNumeral? cs = some m := by
  cases h with
  | @space _ cs c before isSpace =>
    rw [hspace c (List.mem_append_right cs List.mem_cons_self)] at isSpace
    cases isSpace
  | @number _ cs lexeme _ before isNumeral isNumber =>
    obtain rfl : cs = [] := by
      rw [List.eq_nil_iff_forall_not_mem]
      intro c hc
      have hno := hspace c (List.mem_append_left lexeme hc)
      rw [before.all_space c hc] at hno
      cases hno
    exact ⟨isNumeral, isNumber⟩
  | other before noNumber lexeme => exact absurd noNumber id

end Lexer

namespace Token

/-- A text without space is one number token exactly if it is a numeral of that number. -/
theorem lex_eq_number_iff {text : String} (hspace : ∀ c ∈ text.toList, isJsonSpace c = false)
    (m : MachineNumber) :
    lex text = ⟨[.num m], true⟩ ↔
      IsNumeral text.toList ∧ MachineNumber.ofNumeral? text.toList = some m := by
  constructor
  · intro h
    obtain ⟨htokens, hcomplete⟩ := Lexed.mk.inj h
    have hholds := (Lexer.tracks_foldl text.toList).finish (of_decide_eq_true hcomplete)
    rw [List.reverse_eq_iff.1 htokens] at hholds
    exact hholds.of_single hspace
  · rintro ⟨hnumeral, hm⟩
    unfold lex
    rw [(Lexer.settled_numeral hnumeral hm []).finish]
    rfl

end Token

end JsonTree
