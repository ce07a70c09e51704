import PocketCalculator.Json.Reader
import PocketCalculator.Proofs.Json.Lexer

/-!
# Values are read back

A value is read from its tokens, at any depth (`Place.foldlM_tokens`). Behind the beginning of an
array the first item is read as any item is, and likewise the first member of an object, since
neither of them begins with the token that would close what has begun.

Conversely, every place knows the tokens in front of it (`Place.tokens_foldlM`), so that a value is
read from its own tokens only. The texts that a value is read from are thus just the texts of its
tokens (`read?_eq_some_iff`).
-/

namespace PocketCalculator.Json

namespace Place

theorem foldlM_arrayBegun (v : Value) (items : List Value) (rest : List Token)
    (around : List Frame) :
    (Value.itemTokens (v :: items) ++ rest).foldlM step (.arrayBegun around) =
      (Value.itemTokens (v :: items) ++ rest).foldlM step (.value (.array [] :: around)) := by
  cases items <;> cases v <;> rfl

theorem foldlM_objectBegun (m : Text × Value) (members : List (Text × Value)) (rest : List Token)
    (around : List Frame) :
    (Value.memberTokens (m :: members) ++ rest).foldlM step (.objectBegun around) =
      (Value.memberTokens (m :: members) ++ rest).foldlM step (.key [] around) := by
  cases members <;> rfl

mutual

-- By induction on the size of what is read, for all that is around it.
theorem foldlM_tokens (around : List Frame) :
    (v : Value) → v.tokens.foldlM step (.value around) = some (.after v around)
  | .null | .bool _ | .number _ | .text _ | .array [] | .object [] => rfl
  | .array (v :: items) => by
    have hitems := foldlM_itemTokens [] around v items
    rw [← foldlM_arrayBegun] at hitems
    exact hitems
  | .object ((k, v) :: members) => by
    have hmembers := foldlM_memberTokens [] around k v members
    rw [← foldlM_objectBegun] at hmembers
    exact hmembers
termination_by v => sizeOf v

/-- The items `v :: items` of an array, read behind the items `done`. -/
theorem foldlM_itemTokens (done : List Value) (around : List Frame) (v : Value) :
    (items : List Value) →
      (Value.itemTokens (v :: items) ++ [Token.endArray]).foldlM step
          (.value (.array done :: around)) =
        some (.after (.array (done.reverse ++ v :: items)) around)
  | [] => by
    rw [Value.itemTokens, List.foldlM_append, foldlM_tokens]
    simp [step]
  | w :: items => by
    have hitems := foldlM_itemTokens (v :: done) around w items
    rw [List.reverse_cons, List.append_assoc] at hitems
    rw [Value.itemTokens, List.append_assoc, List.foldlM_append, foldlM_tokens]
    exact hitems
termination_by items => sizeOf v + sizeOf items

/-- The members `(k, v) :: members` of an object, read behind the members `done`. -/
theorem foldlM_memberTokens (done : List (Text × Value)) (around : List Frame) (k : Text)
    (v : Value) : (members : List (Text × Value)) →
      (Value.memberTokens ((k, v) :: members) ++ [Token.endObject]).foldlM step
          (.key done around) =
        some (.after (.object (done.reverse ++ (k, v) :: members)) around)
  | [] => by
    change (v.tokens ++ [Token.endObject]).foldlM step (.value (.object done k :: around)) = _
    rw [List.foldlM_append, foldlM_tokens]
    simp [step]
  | (k', w) :: members => by
    have hmembers := foldlM_memberTokens ((k, v) :: done) around k' w members
    rw [List.reverse_cons, List.append_assoc] at hmembers
    change (v.tokens ++ Token.comma :: Value.memberTokens ((k', w) :: members) ++
      [Token.endObject]).foldlM step (.value (.object done k :: around)) = _
    rw [List.append_assoc, List.foldlM_append, foldlM_tokens]
    exact hmembers
termination_by members => sizeOf v + sizeOf members

end

end Place

theorem ofTokens?_tokens (v : Value) : ofTokens? v.tokens = some v := by
  rw [ofTokens?, Place.foldlM_tokens]

/-! ## What has been read -/

namespace Value

/-- The tokens of items with a comma behind each of them. -/
def itemsRead (items : List Value) : List Token :=
  items.flatMap fun v => v.tokens ++ [.comma]

/-- The tokens of members with a comma behind each of them. -/
def membersRead (members : List (Text × Value)) : List Token :=
  members.flatMap fun m => .text m.1 :: .colon :: (m.2.tokens ++ [.comma])

@[simp] theorem itemsRead_nil : itemsRead [] = [] := rfl

@[simp] theorem membersRead_nil : membersRead [] = [] := rfl

@[simp] theorem itemsRead_concat (items : List Value) (v : Value) :
    itemsRead (items ++ [v]) = itemsRead items ++ (v.tokens ++ [.comma]) := by
  simp [itemsRead]

@[simp] theorem membersRead_concat (members : List (Text × Value)) (k : Text) (v : Value) :
    membersRead (members ++ [(k, v)]) =
      membersRead members ++ .text k :: .colon :: (v.tokens ++ [.comma]) := by
  simp [membersRead]

/-- There is no comma behind the last item. -/
@[simp] theorem itemTokens_concat (items : List Value) (v : Value) :
    itemTokens (items ++ [v]) = itemsRead items ++ v.tokens := by
  induction items with
  | nil => rw [List.nil_append, itemTokens, itemsRead, List.flatMap_nil, List.nil_append]
  | cons w items ih =>
    have hcons : itemTokens (w :: (items ++ [v])) =
        w.tokens ++ .comma :: itemTokens (items ++ [v]) := by
      cases items <;> rfl
    rw [List.cons_append, hcons, ih]
    simp [itemsRead]

@[simp] theorem memberTokens_concat (members : List (Text × Value)) (k : Text) (v : Value) :
    memberTokens (members ++ [(k, v)]) = membersRead members ++ .text k :: .colon :: v.tokens := by
  induction members with
  | nil => rw [List.nil_append, memberTokens, membersRead, List.flatMap_nil, List.nil_append]
  | cons m members ih =>
    have hcons : memberTokens (m :: (members ++ [(k, v)])) =
        .text m.1 :: .colon :: m.2.tokens ++ .comma :: memberTokens (members ++ [(k, v)]) := by
      cases members <;> rfl
    rw [List.cons_append, hcons, ih]
    simp [membersRead]

end Value

/-- The tokens of an array or an object in front of one of its values. -/
def Frame.tokens : Frame → List Token
  | .array done => .beginArray :: Value.itemsRead done.reverse
  | .object done k => .beginObject :: (Value.membersRead done.reverse ++ [.text k, .colon])

/-- The tokens of all that is around a place. -/
def Frame.allTokens (around : List Frame) : List Token :=
  around.reverse.flatMap tokens

@[simp] theorem Frame.allTokens_cons (frame : Frame) (around : List Frame) :
    allTokens (frame :: around) = allTokens around ++ frame.tokens := by
  simp [allTokens]

namespace Place

/-- The tokens in front of a place. -/
def tokens : Place → List Token
  | .value around => Frame.allTokens around
  | .arrayBegun around => Frame.allTokens around ++ [.beginArray]
  | .objectBegun around => Frame.allTokens around ++ [.beginObject]
  | .key done around =>
    Frame.allTokens around ++ .beginObject :: Value.membersRead done.reverse
  | .colon done k around =>
    Frame.allTokens around ++ .beginObject :: (Value.membersRead done.reverse ++ [.text k])
  | .after v around => Frame.allTokens around ++ v.tokens

variable {place place' : Place} {t : Token} {around : List Frame}

theorem tokens_stepValue (h : stepValue around t = some place) :
    place.tokens = Frame.allTokens around ++ [t] := by
  cases t with
  | endArray | endObject | comma | colon => cases h
  | _ =>
    cases h
    simp [tokens, Value.tokens]

/-- A step adds the token that it reads. -/
theorem tokens_step (h : place.step t = some place') : place'.tokens = place.tokens ++ [t] := by
  unfold step at h
  split at h
  case h_6 | h_8 | h_10 | h_15 => cases h
  case h_1 => exact tokens_stepValue h
  case h_3 =>
    rw [tokens_stepValue h]
    simp [tokens, Frame.tokens]
  all_goals
    cases h
    simp [tokens, Frame.tokens, Value.tokens, Value.itemTokens, Value.memberTokens]

theorem tokens_foldlM {tokens : List Token} (h : tokens.foldlM step place = some place') :
    place'.tokens = place.tokens ++ tokens := by
  induction tokens generalizing place with
  | nil =>
    cases h
    exact (List.append_nil _).symm
  | cons t tokens ih =>
    rw [List.foldlM_cons, Option.bind_eq_bind, Option.bind_eq_some_iff] at h
    obtain ⟨place₁, hstep, h⟩ := h
    rw [ih h, tokens_step hstep, List.append_assoc]
    rfl

end Place

theorem ofTokens?_eq_some_iff {tokens : List Token} {v : Value} :
    ofTokens? tokens = some v ↔ tokens = v.tokens := by
  constructor
  · intro h
    unfold ofTokens? at h
    split at h
    next v' hfold =>
      cases h
      exact (Place.tokens_foldlM hfold).symm
    · cases h
  · rintro rfl
    exact ofTokens?_tokens v

/-! ## Texts of values -/

theorem Separated.append_cons {tokens tokens' : List Token} {t : Token} (h : Separated tokens)
    (h' : Separated tokens') (ht : t.isNumber = false) : Separated (tokens ++ t :: tokens') := by
  refine List.isChain_append.2 ⟨h, List.isChain_cons.2 ⟨fun u _ => ?_, h'⟩, fun u _ v hv => ?_⟩
  · rw [ht, Bool.false_and]
  · cases hv
    rw [ht, Bool.and_false]

theorem separated_nil : Separated [] := List.isChain_nil

theorem Separated.cons {tokens : List Token} {t : Token} (h : Separated tokens)
    (ht : t.isNumber = false) : Separated (t :: tokens) :=
  separated_nil.append_cons h ht

mutual

-- By induction on the size of a value.
theorem separated_tokens : (v : Value) → Separated v.tokens
  | .null | .bool _ | .number _ | .text _ => List.isChain_singleton _
  | .array items => ((separated_itemTokens items).append_cons separated_nil rfl).cons rfl
  | .object members => ((separated_memberTokens members).append_cons separated_nil rfl).cons rfl
termination_by v => sizeOf v

theorem separated_itemTokens : (items : List Value) → Separated (Value.itemTokens items)
  | [] => separated_nil
  | [v] => separated_tokens v
  | v :: w :: items => (separated_tokens v).append_cons (separated_itemTokens (w :: items)) rfl
termination_by items => sizeOf items

theorem separated_memberTokens :
    (members : List (Text × Value)) → Separated (Value.memberTokens members)
  | [] => separated_nil
  | [(_, v)] => ((separated_tokens v).cons rfl).cons rfl
  | (_, v) :: m :: members =>
    (((separated_tokens v).cons rfl).cons rfl).append_cons (separated_memberTokens (m :: members))
      rfl
termination_by members => sizeOf members

end

/-- A value is read from the texts of its tokens, and from no others. -/
theorem read?_eq_some_iff {cs : List Char} {v : Value} :
    read? cs = some v ↔ Written v.tokens cs := by
  rw [read?, Option.bind_eq_some_iff]
  constructor
  · rintro ⟨tokens, htokens, hvalue⟩
    rw [← ofTokens?_eq_some_iff.1 hvalue]
    exact written_of_tokens? htokens
  · intro h
    exact ⟨_, tokens?_of_written h (separated_tokens v), ofTokens?_tokens v⟩

end PocketCalculator.Json
