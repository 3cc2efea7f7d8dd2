/-
  EgressAuth.Proofs.Json.Grammar

  The grammar of JSON as relations between texts and what they stand for.
  Nothing here reads a text; that the readers accept what the grammar allows,
  and nothing else, is a matter of later modules.

  Lists and objects differ in their brackets and in what may stand before a
  value, so both are the one relation `Enclosed` for a relation of items.
-/
import EgressAuth.Json.Skip
import Mathlib.Data.List.Forall2

namespace EgressAuth.Json

variable {α β : Type}

/-! ## Numbers -/

/-- Digits, at least one of them. -/
def IsDigits (ds : Bytes) : Prop := ds ≠ [] ∧ ∀ d ∈ ds, Decimal.isDigit d = true

/-- The sign of a number, and whether it is minus. -/
inductive IsSign : Bytes → Bool → Prop where
  | absent : IsSign [] false
  | minus : IsSign [0x2D] true

/-- The part of a number from the point on, and its digits. -/
inductive IsFraction : Bytes → Bytes → Prop where
  | absent : IsFraction [] []
  | point {ds : Bytes} (h : IsDigits ds) : IsFraction (0x2E :: ds) ds

/-- The bytes that mark an exponent. -/
def marksExponent (b : UInt8) : Prop := b = 0x65 ∨ b = 0x45

/-- The part of a number from the exponent's mark on, whether it is negative, and its digits. -/
inductive IsExponent : Bytes → Bool → Bytes → Prop where
  | absent : IsExponent [] false []
  | bare {e : UInt8} {ds : Bytes} (he : marksExponent e) (h : IsDigits ds) :
      IsExponent (e :: ds) false ds
  | plus {e : UInt8} {ds : Bytes} (he : marksExponent e) (h : IsDigits ds) :
      IsExponent (e :: 0x2B :: ds) false ds
  | minus {e : UInt8} {ds : Bytes} (he : marksExponent e) (h : IsDigits ds) :
      IsExponent (e :: 0x2D :: ds) true ds

/-- A number literal, part by part. A zero in front stands alone. -/
inductive IsNumeral : Bytes → Numeral → Prop where
  | parts {sign fraction exponent : Bytes} {n : Numeral} (hsign : IsSign sign n.negative)
      (hwhole : IsDigits n.whole) (hzero : n.whole.head? = some 0x30 → n.whole = [0x30])
      (hfraction : IsFraction fraction n.fraction)
      (hexponent : IsExponent exponent n.exponentNegative n.exponent) :
      IsNumeral (sign ++ (n.whole ++ (fraction ++ exponent))) n

/-! ## Strings -/

/-- The inside of a string literal, and its pieces. -/
inductive Writes : Bytes → List Piece → Prop where
  | nil : Writes [] []
  | plain {b : UInt8} {w : Bytes} {ps : List Piece} (hquote : b ≠ quote)
      (hbackslash : b ≠ backslash) (hcontrol : ¬b < 0x20) (h : Writes w ps) :
      Writes (b :: w) (.byte b :: ps)
  | short {letter b : UInt8} {w : Bytes} {ps : List Piece} (hb : shortEscape? letter = some b)
      (h : Writes w ps) : Writes (backslash :: letter :: w) (.byte b :: ps)
  | unit {h₁ h₂ h₃ h₄ : UInt8} {u : Nat} {w : Bytes} {ps : List Piece}
      (hu : hexUnit? h₁ h₂ h₃ h₄ = some u) (h : Writes w ps) :
      Writes (backslash :: unitLetter :: h₁ :: h₂ :: h₃ :: h₄ :: w) (.unit u :: ps)

/-- A string literal, and its pieces. -/
inductive IsLiteral : Bytes → List Piece → Prop where
  | quoted {w : Bytes} {ps : List Piece} (h : Writes w ps) : IsLiteral (quote :: (w ++ [quote])) ps

/-- The bytes that pieces stand for; the halves of a surrogate pair stand together. -/
inductive Means : List Piece → Bytes → Prop where
  | nil : Means [] []
  | byte {b : UInt8} {ps : List Piece} {bs : Bytes} (h : Means ps bs) :
      Means (.byte b :: ps) (b :: bs)
  | unit {u : Nat} {ps : List Piece} {bs : Bytes} (hhigh : isHighUnit u = false)
      (hlow : isLowUnit u = false) (h : Means ps bs) :
      Means (.unit u :: ps) (codePointBytes u ++ bs)
  | pair {u v : Nat} {ps : List Piece} {bs : Bytes} (hhigh : isHighUnit u = true)
      (hlow : isLowUnit v = true) (h : Means ps bs) :
      Means (.unit u :: .unit v :: ps)
        (codePointBytes (0x10000 + (u - 0xD800) * 0x400 + (v - 0xDC00)) ++ bs)

/-- `w` is a string literal for the text `s`. -/
def Spells (w : Bytes) (s : String) : Prop := ∃ ps, IsLiteral w ps ∧ Means ps (Text.encode s)

/-! ## Scalars -/

/-- The words, and their values. -/
inductive IsWord : Bytes → Json → Prop where
  | null : IsWord [0x6E, 0x75, 0x6C, 0x6C] .null
  | true : IsWord [0x74, 0x72, 0x75, 0x65] (.bool .true)
  | false : IsWord [0x66, 0x61, 0x6C, 0x73, 0x65] (.bool .false)

/-- Values that hold no other values. -/
inductive IsScalar : Bytes → Prop where
  | word {w : Bytes} {j : Json} (h : IsWord w j) : IsScalar w
  | number {w : Bytes} {n : Numeral} (h : IsNumeral w n) : IsScalar w
  | string {w : Bytes} {ps : List Piece} (h : IsLiteral w ps) : IsScalar w

/-! ## Containers -/

/-- Nothing but blanks. -/
def Blanks (g : Bytes) : Prop := ∀ b ∈ g, isBlank b = true

/-- A text with blanks around what `R` relates to `a`. -/
inductive Padded (R : Bytes → α → Prop) : Bytes → α → Prop where
  | blanks {g w g' : Bytes} {a : α} (hg : Blanks g) (hw : R w a) (hg' : Blanks g') :
      Padded R (g ++ (w ++ g')) a

/-- What follows an item inside brackets: blanks, and before each further item a comma. -/
inductive Tail (R : Bytes → α → Prop) : Bytes → List α → Prop where
  | blanks {g : Bytes} (hg : Blanks g) : Tail R g []
  | comma {g g' w v : Bytes} {a : α} {as : List α} (hg : Blanks g) (hg' : Blanks g') (hw : R w a)
      (h : Tail R v as) : Tail R (g ++ Json.comma :: (g' ++ (w ++ v))) (a :: as)

/-- Items between brackets, separated by commas. -/
inductive Enclosed (o c : UInt8) (R : Bytes → α → Prop) : Bytes → List α → Prop where
  | empty {g : Bytes} (hg : Blanks g) : Enclosed o c R (o :: (g ++ [c])) []
  | items {g w v : Bytes} {a : α} {as : List α} (hg : Blanks g) (hw : R w a) (h : Tail R v as) :
      Enclosed o c R (o :: (g ++ (w ++ (v ++ [c])))) (a :: as)

/-- A member of an object: a name, a colon, and what `F` relates to the member under that name. -/
inductive Member (F : String → Bytes → α → Prop) : Bytes → α → Prop where
  | named {n g g' w : Bytes} {name : String} {a : α} (hname : Spells n name) (hg : Blanks g)
      (hg' : Blanks g') (hw : F name w a) : Member F (n ++ (g ++ colon :: (g' ++ w))) a

/-! ## Values -/

/-- The byte that opens a container. -/
def Enclosing.opening : Enclosing → UInt8
  | list => openList
  | object => openObject

/-- What stands before the value of an item. Names are string literals that need not spell a
text. -/
inductive Leads : Enclosing → Bytes → Prop where
  | list : Leads .list []
  | object {n g g' : Bytes} {ps : List Piece} (hname : IsLiteral n ps) (hg : Blanks g)
      (hg' : Blanks g') : Leads .object (n ++ (g ++ colon :: g'))

/-- An item of a container, cut in front of its value. -/
def IsItem (c : Enclosing) (w : Bytes) (x : Bytes × Bytes) : Prop :=
  Leads c x.1 ∧ w = x.1 ++ x.2

/-- The texts of JSON values, at any depth. -/
inductive IsValue : Bytes → Prop where
  | scalar {w : Bytes} (h : IsScalar w) : IsValue w
  | container {c : Enclosing} {w : Bytes} {xs : List (Bytes × Bytes)}
      (h : Enclosed c.opening c.closing (IsItem c) w xs) (hxs : ∀ x ∈ xs, IsValue x.2) : IsValue w

/-- `w` is a list of the values with these texts. -/
def IsList : Bytes → List Bytes → Prop :=
  Enclosed openList closeList fun w v => v = w ∧ IsValue w

/-- `w` is a member with this name and this value text. -/
def IsMember : Bytes → String × Bytes → Prop :=
  Member fun name w m => m = (name, w) ∧ IsValue w

/-- `w` is an object of these members. -/
def IsObject : Bytes → List (String × Bytes) → Prop :=
  Enclosed openObject closeObject IsMember

/-! ## Items under other relations -/

section Items

variable {R : Bytes → α → Prop} {S : Bytes → β → Prop} {Q : α → β → Prop} {o c : UInt8}
  {v w : Bytes} {as : List α} {bs : List β}

/-- Items of one relation are items of another, one by one. -/
theorem Tail.forall₂ (h : Tail R v as) (hQ : List.Forall₂ Q as bs)
    (hRS : ∀ w a b, R w a → Q a b → S w b) : Tail S v bs := by
  induction h generalizing bs with
  | blanks hg =>
      cases hQ
      exact .blanks hg
  | comma hg hg' hw _ ih =>
      cases hQ with
      | cons hab hrest => exact .comma hg hg' (hRS _ _ _ hw hab) (ih hrest)

theorem Enclosed.forall₂ (h : Enclosed o c R w as) (hQ : List.Forall₂ Q as bs)
    (hRS : ∀ w a b, R w a → Q a b → S w b) : Enclosed o c S w bs := by
  cases h with
  | empty hg =>
      cases hQ
      exact .empty hg
  | items hg hw htail =>
      cases hQ with
      | cons hab hrest => exact .items hg (hRS _ _ _ hw hab) (htail.forall₂ hrest hRS)

/-- What each item has under another relation, they all have in order. -/
theorem Tail.exists_forall₂ (h : Tail R v as) (hRS : ∀ w, ∀ a ∈ as, R w a → ∃ b, S w b ∧ Q a b) :
    ∃ bs, Tail S v bs ∧ List.Forall₂ Q as bs := by
  induction h with
  | blanks hg => exact ⟨[], .blanks hg, .nil⟩
  | comma hg hg' hw _ ih =>
      obtain ⟨bs, htail, hQ⟩ := ih fun w a ha => hRS w a (List.mem_cons_of_mem _ ha)
      obtain ⟨b, hb, hab⟩ := hRS _ _ List.mem_cons_self hw
      exact ⟨b :: bs, .comma hg hg' hb htail, .cons hab hQ⟩

theorem Enclosed.exists_forall₂ (h : Enclosed o c R w as)
    (hRS : ∀ w, ∀ a ∈ as, R w a → ∃ b, S w b ∧ Q a b) :
    ∃ bs, Enclosed o c S w bs ∧ List.Forall₂ Q as bs := by
  cases h with
  | empty hg => exact ⟨[], .empty hg, .nil⟩
  | items hg hw htail =>
      obtain ⟨bs, htail, hQ⟩ := htail.exists_forall₂ fun w a ha =>
        hRS w a (List.mem_cons_of_mem _ ha)
      obtain ⟨b, hb, hab⟩ := hRS _ _ List.mem_cons_self hw
      exact ⟨b :: bs, .items hg hb htail, .cons hab hQ⟩

end Items

/-! ## Lists and objects as values -/

theorem IsLiteral.isValue {w : Bytes} {ps : List Piece} (h : IsLiteral w ps) : IsValue w :=
  .scalar (.string h)

theorem Spells.isValue {w : Bytes} {s : String} (h : Spells w s) : IsValue w := by
  obtain ⟨ps, hps, -⟩ := h
  exact hps.isValue

theorem forall_of_forall₂ {P : β → Prop} {as : List α} {bs : List β}
    (h : List.Forall₂ (fun _ b => P b) as bs) : ∀ b ∈ bs, P b := by
  induction h with
  | nil => exact fun b hb => absurd hb List.not_mem_nil
  | cons hb _ ih => exact List.forall_mem_cons.2 ⟨hb, ih⟩

/-- A container of items that hold values is a value. -/
theorem IsValue.of_items {c : Enclosing} {R : Bytes → α → Prop} {w : Bytes} {as : List α}
    (hR : ∀ w a, R w a → ∃ x, IsItem c w x ∧ IsValue x.2)
    (h : Enclosed c.opening c.closing R w as) : IsValue w := by
  obtain ⟨xs, hxs, hvalues⟩ := h.exists_forall₂ (S := IsItem c)
    (Q := fun _ x => IsValue x.2) fun w a _ => hR w a
  exact .container hxs (forall_of_forall₂ hvalues)

/-- A list of values is a value. -/
theorem IsValue.of_list {R : Bytes → α → Prop} {w : Bytes} {as : List α}
    (hR : ∀ w a, R w a → IsValue w) (h : Enclosed openList closeList R w as) : IsValue w :=
  IsValue.of_items (c := .list) (fun w a hw => ⟨([], w), ⟨.list, rfl⟩, hR w a hw⟩) h

/-- An object whose members hold values is a value. -/
theorem IsValue.of_object {F : String → Bytes → α → Prop} {w : Bytes} {as : List α}
    (hF : ∀ name w a, F name w a → IsValue w)
    (h : Enclosed openObject closeObject (Member F) w as) : IsValue w := by
  refine IsValue.of_items (c := .object) ?_ h
  rintro _ _ ⟨⟨ps, hps, -⟩, hg, hg', hvalue⟩
  exact ⟨(_, _), ⟨.object hps hg hg', by simp⟩, hF _ _ _ hvalue⟩

theorem IsList.isValue {w : Bytes} {vs : List Bytes} (h : IsList w vs) : IsValue w :=
  IsValue.of_list (fun _ _ hw => hw.2) h

theorem IsObject.isValue {w : Bytes} {ms : List (String × Bytes)} (h : IsObject w ms) :
    IsValue w :=
  IsValue.of_object (fun _ _ _ hw => hw.2) h

theorem IsList.head? {w : Bytes} {vs : List Bytes} (h : IsList w vs) :
    w.head? = some openList := by
  cases h <;> rfl

theorem IsObject.head? {w : Bytes} {ms : List (String × Bytes)} (h : IsObject w ms) :
    w.head? = some openObject := by
  cases h <;> rfl

end EgressAuth.Json
