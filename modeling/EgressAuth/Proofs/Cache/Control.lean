/-
  EgressAuth.Proofs.Cache.Control

  What a `cache-control` header value comes to. The loop over its directives
  stops at the first prohibition and keeps the first age that it has met
  (`Control.decide_eq`), so a value with a prohibition anywhere allows nothing
  (`Control.parse_of_forbids`).
-/
import EgressAuth.Cache.Control

namespace EgressAuth.Cache.Control

/-- What the age that was stated allows, where nothing forbids keeping. -/
def ofAge (now : Instant) : Option (Option Int) → Control
  | some (some s) => if 0 < s then expiresAt (Int64.ofIntClamp (now.toInt + s)) else doNotCache
  | _ => doNotCache

/-- One of the pieces between commas forbids keeping: its name, which stands before the first equals
sign and between blanks, is one of three words in any case. -/
def Forbids (value : String) : Prop :=
  ∃ piece ∈ Text.pieces ',' value.toList, ∃ word ∈ ["no-cache", "no-store", "must-revalidate"],
    Text.sameLetters (String.ofList (Text.trim (Text.cut '=' piece).1)) word = true

theorem forbids_iff_any (value : String) :
    Forbids value ↔ (Directive.ofHeader value).any Directive.forbids = true := by
  rw [Directive.ofHeader, List.any_map, List.any_eq_true]
  refine exists_congr fun piece => and_congr_right fun _ => ?_
  rw [Function.comp, Directive.forbids, List.any_eq_true]
  rfl

theorem decide_nil (now : Instant) (age : Option (Option Int)) :
    decide now age [] = ofAge now age := by
  match age with
  | none => rfl
  | some none => rfl
  | some (some s) => rfl

theorem decide_cons (now : Instant) (age : Option (Option Int)) (d : Directive)
    (ds : List Directive) :
    decide now age (d :: ds) =
      if d.forbids then doNotCache
      else decide now (age.or (if d.isMaxAge then some d.seconds? else none)) ds := by
  match age with
  | none => rfl
  | some none => rfl
  | some (some s) => rfl

/-- A prohibition wins wherever it stands; without one the first age counts, where an age that was
met before goes first. -/
theorem decide_eq (now : Instant) (age : Option (Option Int)) (ds : List Directive) :
    decide now age ds =
      if ds.any Directive.forbids then doNotCache
      else ofAge now (age.or ((ds.find? Directive.isMaxAge).map Directive.seconds?)) := by
  -- The age that is carried along takes in one directive at a time.
  induction ds generalizing age with
  | nil => rw [decide_nil, List.find?_nil, Option.map_none, Option.or_none]; rfl
  | cons d ds ih =>
      rw [decide_cons, ih, List.any_cons, List.find?_cons, Option.or_assoc]
      cases d.forbids with
      | true => rfl
      | false =>
          cases d.isMaxAge with
          | true => rfl
          | false => rfl

/-- A value that forbids keeping allows none, whatever else it says. -/
theorem parse_of_forbids {value : String} (h : Forbids value) (now : Instant) :
    parse value now = doNotCache := by
  rw [parse, decide_eq, if_pos ((forbids_iff_any value).1 h)]

end EgressAuth.Cache.Control
