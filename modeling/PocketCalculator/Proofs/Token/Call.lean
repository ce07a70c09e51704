import PocketCalculator.Proofs.Token.Lexeme
import PocketCalculator.Token.Call

/-!
# Calls read one stream

Whatever a token reader is asked for, it stops between two lexemes, or at an end of its text
(`Call.splits_serve`). So the items of a text can be used up by calls of all kinds, in any order,
and each call goes on with the first item that is left (`served_serveAll`).
-/

namespace PocketCalculator.Token
open Text

/-- What a call answers when given items are left, and how many of them it uses up. -/
inductive Answers : List Item → Call → Answer → Nat → Prop where
  | next (item : Item) (items : List Item) : Answers (item :: items) .next (.next (some item)) 1
  | exhausted : Answers [] .next (.next none) 0
  | tokens (tokens : List Token) :
    Answers (tokens.map .ok) .readAll (.readAll (.ok tokens)) tokens.length
  | error (tokens : List Token) (e : EvalError) (items : List Item) :
    Answers (tokens.map .ok ++ .error e :: items) .readAll (.readAll (.error e)) (tokens.length + 1)
  | items (items : List Item) : Answers items .items (.items items) items.length

/-- Calls are answered in their order, from the items behind the first `k` of all items up to those
behind the first `k'`. -/
inductive Served (all : List Item) : Nat → List Call → List Answer → Nat → Prop where
  | nil (k : Nat) : Served all k [] [] k
  | cons {k n k' : Nat} {call : Call} {answer : Answer} {calls : List Call} {answers : List Answer}
    (h : Answers (all.drop k) call answer n) (hrest : Served all (k + n) calls answers k') :
    Served all k (call :: calls) (answer :: answers) k'

/-- The characters in front of those that are left have just the first `k` items of a text. -/
def Consumed (cs : List Char) (k : Nat) (rest : List Char) : Prop :=
  ∃ read, cs = read ++ rest ∧ k ≤ (items cs).length ∧ items read = (items cs).take k ∧
    items rest = (items cs).drop k

/-- A text consists of two parts that do not meet in the middle of a run. -/
structure Splits (cs read rest : List Char) : Prop where
  append_eq : cs = read ++ rest
  seam : ∀ a ∈ read.getLast?, ∀ b ∈ rest.head?, (inLiteral a && inLiteral b) = false

variable {cs read read' rest rest' blanks lexeme : List Char} {call : Call}

/-! ## Splitting a text -/

namespace Splits

theorem items_eq (h : Splits cs read rest) : items cs = items read ++ items rest := by
  rw [h.append_eq, items_append h.seam]

theorem of_getLast? (h : ∀ c ∈ read.getLast?, inLiteral c = false) :
    Splits (read ++ rest) read rest := by
  refine ⟨rfl, fun a ha b _ => ?_⟩
  rw [h a ha, Bool.false_and]

theorem of_head? (h : ∀ c ∈ rest.head?, inLiteral c = false) :
    Splits (read ++ rest) read rest := by
  refine ⟨rfl, fun a _ b hb => ?_⟩
  rw [h b hb, Bool.and_false]

theorem nil (cs : List Char) : Splits cs [] cs := ⟨rfl, nofun⟩

theorem self (cs : List Char) : Splits cs cs [] := ⟨(List.append_nil cs).symm, nofun⟩

/-- What is left can be split further. -/
theorem append (h : Splits cs read rest) (h' : Splits rest read' rest') :
    Splits cs (read ++ read') rest' ∧ items (read ++ read') = items read ++ items read' := by
  obtain ⟨rfl, hseam⟩ := h
  obtain ⟨rfl, hseam'⟩ := h'
  refine ⟨⟨(List.append_assoc ..).symm, ?_⟩, items_append ?_⟩
  · cases read' with
    | nil => rwa [List.append_nil]
    | cons c read' => rwa [List.getLast?_append_of_ne_nil _ (List.cons_ne_nil c read')]
  · cases read' with
    | nil => exact fun _ _ => nofun
    | cons c read' => exact hseam

theorem consumed (h : Splits cs read rest) : Consumed cs (items read).length rest := by
  refine ⟨read, h.append_eq, ?_, ?_, ?_⟩
  · rw [h.items_eq, List.length_append]
    exact Nat.le_add_right _ _
  · rw [h.items_eq, List.take_left]
  · rw [h.items_eq, List.drop_left]

end Splits

/-- A text is split behind a lexeme. -/
theorem Leads.splits (hblanks : ∀ c ∈ blanks, isBlank c = true) (h : Leads lexeme rest) :
    Splits (blanks ++ (lexeme ++ rest)) (blanks ++ lexeme) rest ∧
      items (blanks ++ lexeme) = [lexemeItem lexeme] := by
  constructor
  · rw [← List.append_assoc]
    cases h with
    | single _ hc =>
      refine .of_getLast? fun a ha => ?_
      rw [List.getLast?_concat, Option.mem_some_iff] at ha
      rw [← ha, hc]
    | run _ _ hrest => exact .of_head? hrest
  · have hend : Leads lexeme [] := by
      cases h with
      | single hblank hc => exact .single hblank hc
      | run hne hrun => exact .run hne hrun nofun
    have hitems := items_of_leads hblanks hend
    rwa [List.append_nil, items_of_isBlank (List.forall_mem_nil _)] at hitems

/-! ## One call -/

theorem readAll_eq (cs : List Char) :
    readAll cs = match next? cs with
      | none => (.ok [], [])
      | some (.error e, rest) => (.error e, rest)
      | some (.ok t, rest) => ((readAll rest).1.map (t :: ·), (readAll rest).2) := by
  rw [readAll]
  split
  next h => rw [h]
  next h => rw [h]
  next h => rw [h]

/-- A token in front of what is left becomes the first of the tokens that are read. -/
theorem Answers.readAll_cons {items : List Item} {result : Except EvalError (List Token)} {n : Nat}
    (h : Answers items .readAll (.readAll result) n) (t : Token) :
    Answers (.ok t :: items) .readAll (.readAll (result.map (t :: ·))) (n + 1) := by
  cases h with
  | tokens tokens => exact .tokens (t :: tokens)
  | error tokens e items => exact .error (t :: tokens) e items

/-- Reading on stops behind the first error, or at the end. -/
theorem splits_readAll (cs : List Char) :
    ∃ read, Splits cs read (readAll cs).2 ∧
      Answers (items cs) .readAll (.readAll (readAll cs).1) (items read).length := by
  induction cs using lexeme_induction with
  | blank cs h =>
    have hread : readAll cs = (.ok [], []) := by rw [readAll_eq, next?_of_isBlank h]
    rw [hread, items_of_isBlank h]
    refine ⟨cs, .self cs, ?_⟩
    rw [items_of_isBlank h]
    exact .tokens []
  | lexeme blanks lexeme rest hblanks hlead ih =>
    obtain ⟨hsplits, hitems⟩ := hlead.splits hblanks
    rw [readAll_eq, next?_of_leads hblanks hlead, items_of_leads hblanks hlead]
    cases hitem : lexemeItem lexeme with
    | error e =>
      refine ⟨_, hsplits, ?_⟩
      rw [hitems]
      exact .error [] e (items rest)
    | ok t =>
      obtain ⟨read, hsplits', hanswers⟩ := ih
      obtain ⟨happend, hitems'⟩ := hsplits.append hsplits'
      refine ⟨_, happend, ?_⟩
      rw [hitems', hitems, List.singleton_append, List.length_cons]
      exact hanswers.readAll_cons t

/-- A call stops between two lexemes, or at the end. -/
theorem Call.splits_serve (call : Call) (cs : List Char) :
    ∃ read, Splits cs read (call.serve cs).2 ∧
      Answers (Token.items cs) call (call.serve cs).1 (Token.items read).length := by
  cases call with
  | next =>
    by_cases hblank : ∀ c ∈ cs, isBlank c = true
    · have hserve : Call.next.serve cs = (.next none, []) := by
        rw [serve, next?_of_isBlank hblank]
      rw [hserve]
      refine ⟨cs, .self cs, ?_⟩
      rw [items_of_isBlank hblank]
      exact .exhausted
    · obtain ⟨blanks, lexeme, rest, rfl, hblanks, hlead⟩ := exists_leads hblank
      obtain ⟨hsplits, hitems⟩ := hlead.splits hblanks
      have hserve : Call.next.serve (blanks ++ (lexeme ++ rest)) =
          (.next (some (lexemeItem lexeme)), rest) := by
        rw [serve, next?_of_leads hblanks hlead]
      rw [hserve]
      refine ⟨_, hsplits, ?_⟩
      rw [hitems, items_of_leads hblanks hlead]
      exact .next _ _
  | readAll => exact splits_readAll cs
  | items => exact ⟨cs, .self cs, .items _⟩

/-! ## Many calls -/

/-- Every item has a character of its own. -/
theorem length_items_le (cs : List Char) : (items cs).length ≤ cs.length := by
  induction cs using lexeme_induction with
  | blank cs h =>
    rw [items_of_isBlank h]
    exact Nat.zero_le _
  | lexeme blanks lexeme rest hblanks hlead ih =>
    have hpos := List.length_pos_iff.2 hlead.ne_nil
    rw [items_of_leads hblanks hlead, List.length_cons, List.length_append, List.length_append]
    omega

/-- Calls that begin behind a part of a text are answered from its items behind those of the
part. -/
theorem splits_serveAll (calls : List Call) (h : Splits cs read rest) :
    ∃ read', Splits cs read' (serveAll rest calls).2 ∧
      Served (items cs) (items read).length calls (serveAll rest calls).1 (items read').length := by
  induction calls generalizing read rest with
  | nil => exact ⟨read, h, .nil _⟩
  | cons call calls ih =>
    obtain ⟨next, hnext, hanswers⟩ := call.splits_serve rest
    obtain ⟨happend, hitems⟩ := h.append hnext
    obtain ⟨read', hread', hserved⟩ := ih happend
    rw [hitems, List.length_append] at hserved
    have hdrop : (items cs).drop (items read).length = items rest := by
      rw [h.items_eq, List.drop_left]
    exact ⟨read', hread', .cons (hdrop.symm ▸ hanswers) hserved⟩

/-- Calls of all kinds, in any order, read one stream of items: together they use up the first items
of a text, each call is answered from the items that are left, and with an item it also uses up a
character. So there are no more items than characters. -/
theorem served_serveAll (cs : List Char) (calls : List Call) :
    (∃ k, Served (items cs) 0 calls (serveAll cs calls).1 k ∧
      Consumed cs k (serveAll cs calls).2) ∧
    (∀ call : Call, ∃ n, Consumed (serveAll cs calls).2 n (call.serve (serveAll cs calls).2).2 ∧
      Answers (items (serveAll cs calls).2) call (call.serve (serveAll cs calls).2).1 n ∧
      (call.serve (serveAll cs calls).2).2.length + n ≤ (serveAll cs calls).2.length) ∧
    (items cs).length ≤ cs.length := by
  obtain ⟨read, hsplits, hserved⟩ := splits_serveAll calls (.nil cs)
  rw [items_of_isBlank (List.forall_mem_nil _)] at hserved
  refine ⟨⟨_, hserved, hsplits.consumed⟩, fun call => ?_, length_items_le cs⟩
  obtain ⟨next, hnext, hanswers⟩ := call.splits_serve (serveAll cs calls).2
  refine ⟨_, hnext.consumed, hanswers, ?_⟩
  have hlength := congrArg List.length hnext.append_eq
  have hle := length_items_le next
  rw [List.length_append] at hlength
  omega

end PocketCalculator.Token
