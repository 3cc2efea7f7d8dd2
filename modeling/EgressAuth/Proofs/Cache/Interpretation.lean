/-
  EgressAuth.Proofs.Cache.Interpretation

  What a `cache-control` header value says, rule by rule (`Control.Means`): a
  prohibition anywhere wins, and otherwise the first stated age alone decides.
  The rules speak of the pieces between commas and look neither at their order,
  ages apart, nor at pieces with other names. Reading a value gives what the
  rules say (`Control.parse_interpretation`).
-/
import EgressAuth.Proofs.Cache.Control
import EgressAuth.Proofs.Decimal.Signed
import EgressAuth.Proofs.Text.Pieces

namespace EgressAuth.Cache

/-! ## Directives -/

namespace Directive

/-- What a piece states: a name, which stands before the first equals sign, between blanks, and an
argument, which stands behind this sign, between blanks and then between quotes. -/
inductive Stated : List Char → List Char → Option (List Char) → Prop
  | bare {piece name : List Char} (hpiece : '=' ∉ piece) (hname : Text.Trims Text.isBlank piece name) :
      Stated piece name none
  | valued {before after name inner argument : List Char} (hbefore : '=' ∉ before)
      (hname : Text.Trims Text.isBlank before name) (hinner : Text.Trims Text.isBlank after inner)
      (hargument : Text.Trims (· == '"') inner argument) :
      Stated (before ++ '=' :: after) name (some argument)

/-- The piece has a name, letters compared without case. -/
def Named (word : String) (piece : List Char) : Prop :=
  ∃ name argument, Stated piece name argument ∧ Text.sameLetters (String.ofList name) word = true

/-- The piece has one of the names that forbid keeping a response. -/
def Forbidding (piece : List Char) : Prop :=
  Named "no-cache" piece ∨ Named "no-store" piece ∨ Named "must-revalidate" piece

/-- The argument of the piece spells a number of 64 bits. -/
def Spells (piece : List Char) (seconds : Int) : Prop :=
  ∃ name argument, Stated piece name (some argument) ∧ Decimal.Spells argument seconds ∧
    Int64.minValue.toInt ≤ seconds ∧ seconds ≤ Int64.maxValue.toInt

variable {piece name : List Char} {argument : Option (List Char)} {word : String} {s : Int}

theorem ofPiece_eq (piece : List Char) :
    ofPiece piece = ⟨String.ofList (Text.trim (Text.cut '=' piece).1),
      (Text.cut '=' piece).2.map fun a => Text.trimBy (· == '"') (Text.trim a)⟩ := rfl

theorem mk_ofList_eq_iff {name' : List Char} {argument' : Option (List Char)} :
    (⟨String.ofList name, argument⟩ : Directive) = ⟨String.ofList name', argument'⟩ ↔
      name = name' ∧ argument = argument' := by
  rw [Directive.mk.injEq, String.ofList_inj]

/-- Reading a piece gives what it states. -/
theorem ofPiece_eq_iff_stated :
    ofPiece piece = ⟨String.ofList name, argument⟩ ↔ Stated piece name argument := by
  rw [ofPiece_eq, mk_ofList_eq_iff]
  constructor
  · rintro ⟨hname, hargument⟩
    by_cases hpiece : '=' ∈ piece
    · obtain ⟨before, after, rfl, hbefore⟩ := List.eq_append_cons_of_mem hpiece
      rw [Text.cut_append hbefore] at hname hargument
      rw [← hname, ← hargument]
      exact Stated.valued hbefore (Text.trims_trimBy _ _) (Text.trims_trimBy _ _)
        (Text.trims_trimBy _ _)
    · rw [Text.cut_of_notMem hpiece] at hname hargument
      rw [← hname, ← hargument]
      exact Stated.bare hpiece (Text.trims_trimBy _ _)
  · intro h
    cases h with
    | bare hpiece hname =>
        rw [Text.cut_of_notMem hpiece]
        exact ⟨Text.trimBy_eq_iff.2 hname, rfl⟩
    | valued hbefore hname hinner hargument =>
        rw [Text.cut_append hbefore]
        refine ⟨Text.trimBy_eq_iff.2 hname, ?_⟩
        rw [Option.map_some, Text.trim, Text.trimBy_eq_iff.2 hinner,
          Text.trimBy_eq_iff.2 hargument]

/-- Every piece states something. -/
theorem exists_stated (piece : List Char) :
    ∃ name argument, Stated piece name argument ∧ ofPiece piece = ⟨String.ofList name, argument⟩ :=
  ⟨_, _, ofPiece_eq_iff_stated.1 (ofPiece_eq piece), ofPiece_eq piece⟩

theorem named_iff : Named word piece ↔ Text.sameLetters (ofPiece piece).name word = true := by
  constructor
  · rintro ⟨name, argument, hstated, hword⟩
    rw [ofPiece_eq_iff_stated.2 hstated]
    exact hword
  · intro h
    obtain ⟨name, argument, hstated, hread⟩ := exists_stated piece
    rw [hread] at h
    exact ⟨name, argument, hstated, h⟩

instance (word : String) (piece : List Char) : Decidable (Named word piece) :=
  decidable_of_iff _ named_iff.symm

instance (piece : List Char) : Decidable (Forbidding piece) :=
  inferInstanceAs (Decidable (_ ∨ _ ∨ _))

theorem forbidding_iff : Forbidding piece ↔ (ofPiece piece).forbids = true := by
  simp only [Forbidding, named_iff, forbids, List.any_cons, List.any_nil, Bool.or_false,
    Bool.or_eq_true]

theorem isMaxAge_ofPiece : (ofPiece piece).isMaxAge = decide (Named "max-age" piece) := by
  rw [isMaxAge, Bool.eq_iff_iff, decide_eq_true_iff, named_iff]

/-- The seconds that a directive is read with are those that its piece spells. -/
theorem seconds?_ofPiece_eq_some_iff : (ofPiece piece).seconds? = some s ↔ Spells piece s := by
  obtain ⟨name, argument, hstated, hread⟩ := exists_stated piece
  rw [seconds?, Option.filter_eq_some_iff, hread]
  simp only [Option.bind_eq_some_iff, Decimal.int?_eq_some_iff, decide_eq_true_iff]
  constructor
  · rintro ⟨⟨a, rfl, ha⟩, hrange⟩
    exact ⟨name, a, hstated, ha, hrange⟩
  · rintro ⟨name', a, hstated', ha, hrange⟩
    have hsame := hread.symm.trans (ofPiece_eq_iff_stated.2 hstated')
    exact ⟨⟨a, (mk_ofList_eq_iff.1 hsame).2, ha⟩, hrange⟩

end Directive

/-! ## Header values -/

namespace Control

open Directive

/-- What the pieces of a header value allow at a time. -/
inductive Means (ps : List (List Char)) (now : Instant) : Control → Prop
  /-- A prohibition wins wherever it stands. -/
  | forbidden (hforbidden : ∃ p ∈ ps, Forbidding p) : Means ps now doNotCache
  /-- Without an age nothing is allowed. -/
  | ageless (hallowed : ∀ p ∈ ps, ¬Forbidding p) (hno : ∀ p ∈ ps, ¬Named "max-age" p) :
      Means ps now doNotCache
  /-- If the first age spells no positive number of 64 bits, nothing is allowed. -/
  | invalid {before after : List (List Char)} {p : List Char} (hallowed : ∀ q ∈ ps, ¬Forbidding q)
      (hps : ps = before ++ p :: after) (hfirst : ∀ q ∈ before, ¬Named "max-age" q)
      (hage : Named "max-age" p) (hseconds : ∀ s, Spells p s → s ≤ 0) : Means ps now doNotCache
  /-- Otherwise it says for how long a response may be kept, at most until the last instant. -/
  | granted {before after : List (List Char)} {p : List Char} {s : Int} {t : Instant}
      (hallowed : ∀ q ∈ ps, ¬Forbidding q) (hps : ps = before ++ p :: after)
      (hfirst : ∀ q ∈ before, ¬Named "max-age" q) (hage : Named "max-age" p)
      (hseconds : Spells p s) (hpos : 0 < s)
      (ht : t.toInt = min (now.toInt + s) Int64.maxValue.toInt) : Means ps now (expiresAt t)

variable {ps : List (List Char)} {now : Instant} {c : Control}

/-- The pieces decide by two things: whether one forbids keeping, and the first age. -/
theorem parse_eq (value : String) (now : Instant) :
    parse value now =
      if ∃ p ∈ Text.pieces ',' value.toList, Forbidding p then doNotCache
      else ofAge now (((Text.pieces ',' value.toList).find? (Named "max-age" ·)).map
        fun p => (ofPiece p).seconds?) := by
  have hforbids : (∃ p ∈ Text.pieces ',' value.toList, Forbidding p) ↔
      (Directive.ofHeader value).any Directive.forbids = true := by
    rw [Directive.ofHeader, List.any_map, List.any_eq_true]
    simp only [Function.comp, forbidding_iff]
  have hage : ((Directive.ofHeader value).find? Directive.isMaxAge).map Directive.seconds? =
      ((Text.pieces ',' value.toList).find? (Named "max-age" ·)).map
        fun p => (ofPiece p).seconds? := by
    have hname : Directive.isMaxAge ∘ ofPiece = fun p => Decidable.decide (Named "max-age" p) :=
      funext fun _ => isMaxAge_ofPiece
    rw [Directive.ofHeader, List.find?_map, hname, Option.map_map]
    rfl
  rw [parse, decide_eq, hage, Option.none_or]
  simp only [hforbids]

/-- The first age among some pieces. -/
theorem find?_named {before after : List (List Char)} {p : List Char}
    (hps : ps = before ++ p :: after) (hfirst : ∀ q ∈ before, ¬Named "max-age" q)
    (hage : Named "max-age" p) : ps.find? (Named "max-age" ·) = some p := by
  rw [List.find?_eq_some_iff_append]
  exact ⟨by simpa using hage, before, after, hps, fun q hq => by simpa using hfirst q hq⟩

/-- An age in the future of 64 bits ends at the last instant. -/
theorem toInt_clamp {s : Int} (hs : 0 < s) :
    (Int64.ofIntClamp (now.toInt + s)).toInt = min (now.toInt + s) Int64.maxValue.toInt := by
  have hmin : Int64.minValue.toInt ≤ now.toInt + s := by
    have := Int64.le_toInt now
    rw [Int64.toInt_minValue]
    omega
  by_cases hmax : now.toInt + s ≤ Int64.maxValue.toInt
  · rw [Int64.toInt_ofIntClamp hmin hmax, min_eq_left hmax]
  · rw [Int64.ofIntClamp, dif_pos hmin, dif_neg hmax, min_eq_right (Int.le_of_not_le hmax)]

theorem ofAge_of_not_pos {age : Option Int} (h : ∀ s, age = some s → s ≤ 0) :
    ofAge now (some age) = doNotCache := by
  cases age with
  | none => rfl
  | some s => exact if_neg (Int.not_lt.2 (h s rfl))

/-- Reading a value gives whatever its pieces say. -/
theorem parse_of_means {value : String} (h : Means (Text.pieces ',' value.toList) now c) :
    parse value now = c := by
  rw [parse_eq]
  cases h with
  | forbidden hforbidden => exact if_pos hforbidden
  | ageless hallowed hno =>
      rw [if_neg (by simpa using hallowed), List.find?_eq_none.2 (by simpa using hno)]
      rfl
  | invalid hallowed hps hfirst hage hseconds =>
      rw [if_neg (by simpa using hallowed), find?_named hps hfirst hage]
      exact ofAge_of_not_pos fun s hs => hseconds s (seconds?_ofPiece_eq_some_iff.1 hs)
  | granted hallowed hps hfirst hage hseconds hpos ht =>
      rw [if_neg (by simpa using hallowed), find?_named hps hfirst hage, Option.map_some,
        seconds?_ofPiece_eq_some_iff.2 hseconds, ofAge, if_pos hpos, expiresAt.injEq,
        ← Int64.toInt_inj, toInt_clamp hpos, ht]

/-- Pieces always say something. -/
theorem exists_means (ps : List (List Char)) (now : Instant) : ∃ c, Means ps now c := by
  by_cases hforbidden : ∃ p ∈ ps, Forbidding p
  · exact ⟨_, .forbidden hforbidden⟩
  · have hallowed : ∀ p ∈ ps, ¬Forbidding p := by simpa using hforbidden
    cases hfind : ps.find? (Named "max-age" ·) with
    | none => exact ⟨_, .ageless hallowed (by simpa using hfind)⟩
    | some p =>
        obtain ⟨hage, before, after, hps, hfirst⟩ := List.find?_eq_some_iff_append.1 hfind
        rw [decide_eq_true_iff] at hage
        have hbefore : ∀ q ∈ before, ¬Named "max-age" q := by simpa using hfirst
        by_cases hseconds : ∃ s, Spells p s ∧ 0 < s
        · obtain ⟨s, hs, hpos⟩ := hseconds
          exact ⟨_, .granted hallowed hps hbefore hage hs hpos (toInt_clamp hpos)⟩
        · refine ⟨_, .invalid hallowed hps hbefore hage fun s hs => ?_⟩
          exact Int.not_lt.1 fun hpos => hseconds ⟨s, hs, hpos⟩

theorem parse_eq_iff_means (value : String) (now : Instant) (c : Control) :
    parse value now = c ↔ Means (Text.pieces ',' value.toList) now c := by
  refine ⟨fun h => ?_, parse_of_means⟩
  obtain ⟨c', hc'⟩ := exists_means (Text.pieces ',' value.toList) now
  rw [← h, parse_of_means hc']
  exact hc'

/-- Values are read alike if one forbids keeping where the other does, and the first age is the
same piece. -/
theorem parse_congr {value other : String}
    (hforbids : (∃ p ∈ Text.pieces ',' value.toList, Forbidding p) ↔
      ∃ p ∈ Text.pieces ',' other.toList, Forbidding p)
    (hage : (Text.pieces ',' value.toList).filter (Named "max-age" ·) =
      (Text.pieces ',' other.toList).filter (Named "max-age" ·)) :
    parse value now = parse other now := by
  rw [parse_eq, parse_eq, ← List.head?_filter, ← List.head?_filter, hage]
  simp only [hforbids]

/-! ## Main statement -/

/-- Reading a header value gives what the rules say of its pieces. Pieces may change places as long
as the ages keep their order, and pieces with other names may be put in anywhere. An expiration is
later than the time at which the value is read, unless that is the last instant. -/
theorem parse_interpretation (value : String) (now : Instant) :
    (∀ c, parse value now = c ↔
      ∃ ps, Text.ArePieces ',' value.toList ps ∧ Means ps now c) ∧
    (∀ other ps qs, Text.ArePieces ',' value.toList ps → Text.ArePieces ',' other.toList qs →
      ps.Perm qs → ps.filter (Named "max-age" ·) = qs.filter (Named "max-age" ·) →
      parse other now = parse value now) ∧
    (∀ other before new after, Text.ArePieces ',' value.toList (before ++ after) →
      Text.ArePieces ',' other.toList (before ++ new ++ after) →
      (∀ p ∈ new, ¬Forbidding p ∧ ¬Named "max-age" p) →
      parse other now = parse value now) ∧
    (now < Int64.maxValue → ∀ t, parse value now = expiresAt t → now < t) := by
  refine ⟨fun c => ?meaning, ?permuted, ?inserted, ?later⟩
  case meaning =>
    rw [parse_eq_iff_means]
    constructor
    · exact fun h => ⟨_, Text.arePieces_pieces _ _, h⟩
    · rintro ⟨ps, hps, h⟩
      rw [Text.pieces_eq_iff.2 hps]
      exact h
  case permuted =>
    intro other ps qs hps hqs hperm hages
    apply parse_congr
    · rw [Text.pieces_eq_iff.2 hps, Text.pieces_eq_iff.2 hqs]
      simp only [hperm.mem_iff]
    · rw [Text.pieces_eq_iff.2 hps, Text.pieces_eq_iff.2 hqs, hages]
  case inserted =>
    intro other before new after hps hqs hnew
    apply parse_congr
    · have hnone : ¬∃ p, p ∈ new ∧ Forbidding p := by
        rintro ⟨p, hp, hforbidding⟩
        exact (hnew p hp).1 hforbidding
      rw [Text.pieces_eq_iff.2 hps, Text.pieces_eq_iff.2 hqs]
      simp only [List.mem_append, or_and_right, exists_or, hnone, or_false]
    · rw [Text.pieces_eq_iff.2 hps, Text.pieces_eq_iff.2 hqs]
      have hnone : new.filter (Named "max-age" ·) = [] :=
        List.filter_eq_nil_iff.2 fun p hp => by simpa using (hnew p hp).2
      rw [List.filter_append, List.filter_append, List.filter_append, hnone, List.append_nil]
  case later =>
    intro hnow t ht
    cases (parse_eq_iff_means value now _).1 ht with
    | granted _ _ _ _ _ hpos ht =>
        rw [Int64.lt_iff_toInt_lt] at hnow ⊢
        omega

/-- An age in capitals, with blanks, quotes and a sign, behind a piece with another name. -/
theorem parse_interpretation_of_quoted_age :
    parse "private, Max-Age = \"+60\"" 5 = expiresAt 65 ∧
      parse "private,no-transform, Max-Age = \"+60\"" 5 = expiresAt 65 ∧ (5 : Instant) < 65 := by
  let age : List Char := " Max-Age = \"+60\"".toList
  have hpieces : Text.ArePieces ',' "private, Max-Age = \"+60\"".toList ["private".toList, age] :=
    Text.pieces_eq_iff.1 (by decide)
  have hmore : Text.ArePieces ',' "private,no-transform, Max-Age = \"+60\"".toList
      (["private".toList] ++ ["no-transform".toList] ++ [age]) :=
    Text.pieces_eq_iff.1 (by decide)
  have hseconds : Spells age 60 := seconds?_ofPiece_eq_some_iff.1 (by decide)
  have hsplit : ["private".toList, age] = ["private".toList] ++ age :: [] := rfl
  have hmeans : Means ["private".toList, age] 5 (expiresAt 65) :=
    Means.granted (by decide) hsplit (by decide) (by decide) hseconds (by decide) (by decide)
  obtain ⟨hmeaning, -, hinserted, hlater⟩ :=
    parse_interpretation "private, Max-Age = \"+60\"" 5
  have hparse := (hmeaning _).2 ⟨_, hpieces, hmeans⟩
  refine ⟨hparse, ?_, hlater (by decide) _ hparse⟩
  rw [hinserted _ ["private".toList] ["no-transform".toList] [age] hpieces hmore (by decide), hparse]

end Control
end EgressAuth.Cache
