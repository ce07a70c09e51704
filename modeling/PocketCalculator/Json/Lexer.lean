import PocketCalculator.Json.Value

/-!
# Tokens in a text

Cuts a text into tokens of the data format, with blanks between them.
-/

namespace PocketCalculator.Json

/-- Whether a character may stand between tokens without a meaning. -/
def isSpace (c : Char) : Bool :=
  c == ' ' || c == '\t' || c == '\n' || c == '\r'

/-- Splits off the leading digits, of which there must be one. -/
def digits? (cs : List Char) : Option (List Char × List Char) :=
  match cs.takeWhile Char.isDigit with
  | [] => none
  | ds => some (ds, cs.dropWhile Char.isDigit)

/-- Splits off a whole number: a zero, or digits that do not begin with a zero. -/
def whole? : List Char → Option (List Char × List Char)
  | '0' :: rest => some (['0'], rest)
  | cs => digits? cs

/-- Splits off a point and its places, if there is a point. -/
def fraction? : List Char → Option (List Char × List Char)
  | '.' :: rest => (digits? rest).map fun (ds, rest) => ('.' :: ds, rest)
  | cs => some ([], cs)

/-- Splits off a sign, if there is one. -/
def sign : List Char → List Char × List Char
  | '+' :: rest => (['+'], rest)
  | '-' :: rest => (['-'], rest)
  | cs => ([], cs)

/-- Splits off an exponent, if there is one. -/
def exponent? : List Char → Option (List Char × List Char)
  | c :: rest =>
    if c = 'e' || c = 'E' then
      let (s, rest) := sign rest
      (digits? rest).map fun (ds, rest) => (c :: s ++ ds, rest)
    else some ([], c :: rest)
  | [] => some ([], [])

/-- Splits off a number without a sign. -/
def unsigned? (cs : List Char) : Option (List Char × List Char) := do
  let (w, cs) ← whole? cs
  let (f, cs) ← fraction? cs
  let (e, cs) ← exponent? cs
  some (w ++ f ++ e, cs)

/-- Splits off a number. -/
def number? : List Char → Option (List Char × List Char)
  | '-' :: rest => (unsigned? rest).map fun (ds, rest) => ('-' :: ds, rest)
  | cs => unsigned? cs

/-! ## What is left is shorter -/

variable {cs ds rest : List Char}

theorem length_lt_of_digits? (h : digits? cs = some (ds, rest)) : rest.length < cs.length := by
  unfold digits? at h
  split at h
  · cases h
  next hne =>
    cases h
    have hlen := congrArg List.length (cs.takeWhile_append_dropWhile (p := Char.isDigit))
    have hpos := List.length_pos_iff.2 hne
    rw [List.length_append] at hlen
    omega

theorem length_lt_of_whole? (h : whole? cs = some (ds, rest)) : rest.length < cs.length := by
  unfold whole? at h
  split at h
  · cases h
    simp
  · exact length_lt_of_digits? h

theorem length_le_of_fraction? (h : fraction? cs = some (ds, rest)) : rest.length ≤ cs.length := by
  unfold fraction? at h
  split at h
  · obtain ⟨p, hp, h⟩ := Option.map_eq_some_iff.1 h
    cases h
    exact Nat.le_succ_of_le (Nat.le_of_lt (length_lt_of_digits? hp))
  · cases h
    exact Nat.le_refl _

theorem length_sign_le (cs : List Char) : (sign cs).2.length ≤ cs.length := by
  unfold sign
  split <;> simp

theorem length_le_of_exponent? (h : exponent? cs = some (ds, rest)) : rest.length ≤ cs.length := by
  unfold exponent? at h
  split at h
  next c r =>
    split at h
    · obtain ⟨p, hp, h⟩ := Option.map_eq_some_iff.1 h
      cases h
      exact Nat.le_trans (Nat.le_of_lt (length_lt_of_digits? hp))
        (Nat.le_succ_of_le (length_sign_le r))
    · cases h
      exact Nat.le_refl _
  · cases h
    exact Nat.le_refl _

theorem length_lt_of_unsigned? (h : unsigned? cs = some (ds, rest)) : rest.length < cs.length := by
  simp only [unsigned?, Option.bind_eq_bind, Option.bind_eq_some_iff] at h
  obtain ⟨⟨w, r₁⟩, hw, ⟨f, r₂⟩, hf, ⟨e, r₃⟩, he, h⟩ := h
  cases h
  exact Nat.lt_of_le_of_lt (length_le_of_exponent? he)
    (Nat.lt_of_le_of_lt (length_le_of_fraction? hf) (length_lt_of_whole? hw))

theorem length_lt_of_number? (h : number? cs = some (ds, rest)) : rest.length < cs.length := by
  unfold number? at h
  split at h
  · obtain ⟨p, hp, h⟩ := Option.map_eq_some_iff.1 h
    cases h
    exact Nat.lt_succ_of_lt (length_lt_of_unsigned? hp)
  · exact length_lt_of_unsigned? h

theorem Text.length_lt_of_read? {t : Text} (h : Text.read? cs = some (t, rest)) :
    rest.length < cs.length := by
  fun_induction Text.read? cs generalizing t with
  | case1 => cases h
  | case2 => cases h; simp
  | case3 a b c d r ih =>
    simp only [Option.bind_eq_bind, Option.bind_eq_some_iff] at h
    obtain ⟨u, -, ⟨t', r'⟩, hr, h⟩ := h
    cases h
    have hlt : r'.length < r.length := ih hr
    simp only [List.length_cons]
    omega
  | case4 e r _ ih =>
    simp only [Option.bind_eq_bind, Option.bind_eq_some_iff] at h
    obtain ⟨u, -, ⟨t', r'⟩, hr, h⟩ := h
    cases h
    have hlt : r'.length < r.length := ih hr
    simp only [List.length_cons]
    omega
  | case5 => cases h
  | case6 c r _ _ _ _ ih =>
    simp only [Option.bind_eq_bind, Option.bind_eq_some_iff] at h
    obtain ⟨⟨t', r'⟩, hr, h⟩ := h
    cases h
    have hlt : r'.length < r.length := ih hr
    simp only [List.length_cons]
    omega

namespace Token

/-- Splits off the token that a text begins with. -/
def next? : List Char → Option (Token × List Char)
  | '[' :: rest => some (.beginArray, rest)
  | ']' :: rest => some (.endArray, rest)
  | '\x7b' :: rest => some (.beginObject, rest)
  | '\x7d' :: rest => some (.endObject, rest)
  | ',' :: rest => some (.comma, rest)
  | ':' :: rest => some (.colon, rest)
  | 'n' :: 'u' :: 'l' :: 'l' :: rest => some (.null, rest)
  | 't' :: 'r' :: 'u' :: 'e' :: rest => some (.bool true, rest)
  | 'f' :: 'a' :: 'l' :: 's' :: 'e' :: rest => some (.bool false, rest)
  | '"' :: rest => (Text.read? rest).map fun (t, rest) => (.text t, rest)
  | cs => (number? cs).map fun (ds, rest) => (.number ds, rest)

theorem length_lt_of_next? {t : Token} (h : next? cs = some (t, rest)) :
    rest.length < cs.length := by
  unfold next? at h
  split at h
  case h_10 =>
    obtain ⟨p, hp, h⟩ := Option.map_eq_some_iff.1 h
    cases h
    exact Nat.lt_succ_of_lt (Text.length_lt_of_read? hp)
  case h_11 =>
    obtain ⟨p, hp, h⟩ := Option.map_eq_some_iff.1 h
    cases h
    exact length_lt_of_number? hp
  all_goals
    cases h
    simp only [List.length_cons]
    omega

end Token

/-- The tokens of a text, if it consists of tokens with nothing but spaces between them. -/
def tokens? (cs : List Char) : Option (List Token) :=
  let cs' := cs.dropWhile isSpace
  if cs'.isEmpty then some []
  else match _h : Token.next? cs' with
    | none => none
    | some (t, rest) => (tokens? rest).map (t :: ·)
termination_by cs.length
decreasing_by
  exact Nat.lt_of_lt_of_le (Token.length_lt_of_next? _h) (List.dropWhile_sublist _).length_le

end PocketCalculator.Json
