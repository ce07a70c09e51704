import Mathlib.Data.List.Chain
import PocketCalculator.Proofs.Json.Number
import PocketCalculator.Proofs.Json.Text

/-!
# Tokens are read back

`Spells` says which texts a token has, and `Written` which texts a sequence of tokens has, with
spaces anywhere between them. The tokens of a text are found one at a time: a space in front changes
nothing (`tokens?_space`), and a token in front is the first of them (`tokens?_of_next?`). What is
read is written in the text (`written_of_tokens?`), and every text of tokens is read as these tokens
if no two numbers stand next to each other (`tokens?_of_written`). For the two kinds of token with
many texts, quoted characters and natural numbers, there are lemmas for the texts that they are
written as (`tokens?_write`, `tokens?_toDigits`).
-/

namespace PocketCalculator.Json

variable {c : Char} {cs ds l rest spaces : List Char} {n : Nat}

theorem tokens?_eq {cs' : List Char} (h : cs.dropWhile isSpace = cs') :
    tokens? cs = if cs'.isEmpty then some []
      else (Token.next? cs').bind fun p => (tokens? p.2).map (p.1 :: ·) := by
  subst h
  rw [tokens?]
  refine ite_congr rfl (fun _ => rfl) fun _ => ?_
  split
  next hnone => rw [hnone]; rfl
  next hsome => rw [hsome]; rfl

theorem tokens?_nil : tokens? [] = some [] :=
  tokens?_eq rfl

theorem tokens?_space (hc : isSpace c = true) (cs : List Char) :
    tokens? (c :: cs) = tokens? cs := by
  rw [tokens?_eq (List.dropWhile_cons_of_pos hc), tokens?_eq rfl]

theorem tokens?_spaces (h : ∀ c ∈ spaces, isSpace c = true) (cs : List Char) :
    tokens? (spaces ++ cs) = tokens? cs := by
  induction spaces with
  | nil => rfl
  | cons c spaces ih =>
    obtain ⟨hc, hspaces⟩ := List.forall_mem_cons.1 h
    rw [List.cons_append, tokens?_space hc, ih hspaces]

/-! ## One token -/

namespace Token

/-- The texts of a token. -/
inductive Spells : Token → List Char → Prop where
  | beginArray : Spells .beginArray ['[']
  | endArray : Spells .endArray [']']
  | beginObject : Spells .beginObject ['\x7b']
  | endObject : Spells .endObject ['\x7d']
  | comma : Spells .comma [',']
  | colon : Spells .colon [':']
  | null : Spells .null ['n', 'u', 'l', 'l']
  | boolTrue : Spells (.bool true) ['t', 'r', 'u', 'e']
  | boolFalse : Spells (.bool false) ['f', 'a', 'l', 's', 'e']
  | number {ds : List Char} (h : IsNumber ds) : Spells (.number ds) ds
  | text {t : Text} {l : List Char} (h : Text.Spells t l) : Spells (.text t) ('"' :: (l ++ ['"']))

/-- Whether a token is a number. -/
def isNumber : Token → Bool
  | .number _ => true
  | _ => false

variable {t : Token}

/-- A number is split off where a digit or a minus sign comes next. -/
theorem next?_of_head (hc : c.isDigit = true ∨ c = '-') :
    next? (c :: cs) = (number? (c :: cs)).map fun p => (.number p.1, p.2) := by
  have hne {d : Char} {ds : List Char} (hd : d.isDigit = false ∧ d ≠ '-') : c :: cs ≠ d :: ds := by
    rintro ⟨⟩
    rcases hc with hc | rfl
    · rw [hd.1] at hc
      cases hc
    · exact hd.2 rfl
  exact next?.eq_11 _ (fun _ => hne (by decide)) (fun _ => hne (by decide))
    (fun _ => hne (by decide)) (fun _ => hne (by decide)) (fun _ => hne (by decide))
    (fun _ => hne (by decide)) (fun _ => hne (by decide)) (fun _ => hne (by decide))
    (fun _ => hne (by decide)) fun _ => hne (by decide)

theorem next?_number (h : IsNumber ds) (hrest : ∀ c ∈ rest.head?, continuesNumber c = false) :
    next? (ds ++ rest) = some (.number ds, rest) := by
  have hnumber := number?_append h hrest
  cases h with
  | unsigned h =>
    obtain ⟨d, ds', rfl, hd⟩ := h.head?
    rw [List.cons_append, next?_of_head (.inl hd), ← List.cons_append, hnumber]
    rfl
  | negative h =>
    rw [List.cons_append, next?_of_head (.inr rfl), ← List.cons_append, hnumber]
    rfl

theorem next?_append (h : Spells t l)
    (hrest : t.isNumber = true → ∀ c ∈ rest.head?, continuesNumber c = false) :
    next? (l ++ rest) = some (t, rest) := by
  cases h with
  | number h => exact next?_number h (hrest rfl)
  | @text t l h =>
    rw [List.cons_append, List.append_assoc]
    change (Text.read? (l ++ '"' :: rest)).map _ = _
    rw [Text.read?_append h]
    rfl
  | _ => rfl

/-- The token that is split off is spelled by what is split off. -/
theorem exists_spells_of_next? (h : next? cs = some (t, rest)) :
    ∃ l, Spells t l ∧ cs = l ++ rest := by
  unfold next? at h
  split at h
  case h_10 =>
    obtain ⟨⟨t', r⟩, ht, heq⟩ := Option.map_eq_some_iff.1 h
    cases heq
    obtain ⟨l, hl, rfl⟩ := Text.exists_spells_of_read? ht
    exact ⟨_, .text hl, by simp⟩
  case h_11 =>
    obtain ⟨⟨ds, r⟩, hds, heq⟩ := Option.map_eq_some_iff.1 h
    cases heq
    obtain ⟨rfl, hnumber⟩ := eq_append_of_number? hds
    exact ⟨_, .number hnumber, rfl⟩
  all_goals
    cases h
    exact ⟨_, by constructor, rfl⟩

theorem isSpace_of_next? (h : next? (c :: cs) = some (t, rest)) : isSpace c = false := by
  cases hc : isSpace c
  · rfl
  simp only [isSpace, Bool.or_eq_true, beq_iff_eq] at hc
  obtain ((rfl | rfl) | rfl) | rfl := hc <;> cases h

/-- A token that is no number does not begin like the rest of a number. -/
theorem Spells.head?_not_continuesNumber (h : Spells t l) (ht : t.isNumber = false) :
    l ≠ [] ∧ ∀ c ∈ l.head?, continuesNumber c = false := by
  cases h with
  | number => cases ht
  | _ => exact ⟨List.cons_ne_nil _ _, by rintro _ ⟨⟩; rfl⟩

end Token

theorem tokens?_of_next? {t : Token} (h : Token.next? cs = some (t, rest)) :
    tokens? cs = (tokens? rest).map (t :: ·) := by
  cases cs with
  | nil => cases h
  | cons c cs =>
    have hdrop : (c :: cs).dropWhile isSpace = c :: cs :=
      List.dropWhile_cons_of_neg (by simp [Token.isSpace_of_next? h])
    rw [tokens?_eq hdrop, h]
    rfl

/-! ## All tokens -/

/-- The texts of a sequence of tokens, with spaces anywhere between them. -/
inductive Written : List Token → List Char → Prop where
  | nil {spaces : List Char} (h : ∀ c ∈ spaces, isSpace c = true) : Written [] spaces
  | cons {t : Token} {tokens : List Token} {spaces l rest : List Char}
    (h : ∀ c ∈ spaces, isSpace c = true) (hspell : t.Spells l) (hrest : Written tokens rest) :
    Written (t :: tokens) (spaces ++ (l ++ rest))

/-- No two numbers stand next to each other. -/
def Separated (tokens : List Token) : Prop :=
  tokens.IsChain fun t u => (t.isNumber && u.isNumber) = false

variable {tokens : List Token}

theorem continuesNumber_of_isSpace (h : isSpace c = true) : continuesNumber c = false := by
  simp only [isSpace, Bool.or_eq_true, beq_iff_eq] at h
  obtain ((rfl | rfl) | rfl) | rfl := h <;> rfl

/-- Tokens that do not begin with a number do not go on with one. -/
theorem Written.head?_not_continuesNumber (h : Written tokens cs)
    (ht : ∀ t ∈ tokens.head?, t.isNumber = false) :
    ∀ c ∈ cs.head?, continuesNumber c = false := by
  intro c hc
  cases h with
  | nil h => exact continuesNumber_of_isSpace (h c (List.mem_of_head? hc))
  | @cons t _ spaces l rest h hspell =>
    cases spaces with
    | cons d spaces =>
      cases hc
      exact continuesNumber_of_isSpace (h _ List.mem_cons_self)
    | nil =>
      obtain ⟨hne, hhead⟩ := hspell.head?_not_continuesNumber (ht t rfl)
      rw [List.nil_append, List.head?_append_of_ne_nil _ hne] at hc
      exact hhead c hc

theorem tokens?_of_written (h : Written tokens cs) (hsep : Separated tokens) :
    tokens? cs = some tokens := by
  induction h with
  | @nil spaces h =>
    have hspaces := tokens?_spaces h []
    rwa [List.append_nil, tokens?_nil] at hspaces
  | @cons t tokens spaces l rest h hspell hrest ih =>
    obtain ⟨hhead, htail⟩ := List.isChain_cons.1 hsep
    have hstop (ht : t.isNumber = true) : ∀ c ∈ rest.head?, continuesNumber c = false := by
      refine hrest.head?_not_continuesNumber fun u hu => ?_
      have hnumbers := hhead u hu
      rwa [ht, Bool.true_and] at hnumbers
    rw [tokens?_spaces h, tokens?_of_next? (Token.next?_append hspell hstop), ih htail]
    rfl

theorem written_of_tokens? {cs : List Char} {tokens : List Token}
    (h : tokens? cs = some tokens) : Written tokens cs := by
  have hspaces : ∀ c ∈ cs.takeWhile isSpace, isSpace c = true :=
    List.all_eq_true.1 List.all_takeWhile
  rw [tokens?_eq rfl] at h
  rw [← List.takeWhile_append_dropWhile (p := isSpace) (l := cs)]
  split at h
  next hempty =>
    cases h
    rw [List.isEmpty_iff.1 hempty, List.append_nil]
    exact .nil hspaces
  next =>
    obtain ⟨⟨t, rest⟩, hnext, hrest⟩ := Option.bind_eq_some_iff.1 h
    obtain ⟨tokens, htokens, rfl⟩ := Option.map_eq_some_iff.1 hrest
    have hlt : rest.length < cs.length :=
      Nat.lt_of_lt_of_le (Token.length_lt_of_next? hnext) (List.dropWhile_sublist _).length_le
    obtain ⟨l, hspell, heq⟩ := Token.exists_spells_of_next? hnext
    rw [heq]
    exact .cons hspaces hspell (written_of_tokens? htokens)
termination_by cs.length

/-! ## Written texts and numbers -/

theorem Token.next?_write (cs rest : List Char) :
    next? (Text.write cs ++ rest) = some (.text (cs.map Text.part), rest) := by
  have hwrite : Text.write cs ++ rest = '"' :: (cs.flatMap Text.writeChar ++ '"' :: rest) := by
    simp [Text.write]
  rw [hwrite, next?, Text.read?_flatMap_writeChar]
  rfl

theorem tokens?_write (cs rest : List Char) :
    tokens? (Text.write cs ++ rest) = (tokens? rest).map (.text (cs.map Text.part) :: ·) :=
  tokens?_of_next? (Token.next?_write cs rest)

theorem tokens?_toDigits (n : Nat) (hrest : ∀ c ∈ rest.head?, continuesNumber c = false) :
    tokens? (Nat.toDigits 10 n ++ rest) = (tokens? rest).map (.number (Nat.toDigits 10 n) :: ·) :=
  tokens?_of_next? (Token.next?_number (.unsigned (isUnsigned_toDigits n)) hrest)

end PocketCalculator.Json
