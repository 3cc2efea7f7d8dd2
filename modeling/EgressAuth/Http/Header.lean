/-
  EgressAuth.Http.Header

  Header names, header values and the header map of a message.

  Names are kept in small letters. A value is any string of bytes without
  controls other than the tab; it can be shown as text only if all its bytes
  are printable ASCII or tabs. A map remembers the order in which names first
  came and, for each name, its values in order.
-/
import EgressAuth.Http.Token
import EgressAuth.Text.Ascii

namespace EgressAuth.Http

/-! ## Names -/

def maxNameLength : Nat := 65535

/-- Whether a text in small letters is a header name. -/
def isHeaderName (s : String) : Bool :=
  let cs := s.toList
  !cs.isEmpty && cs.length ≤ maxNameLength && cs.all fun c => isTokenChar c && !c.isUpper

/-- A header name in small letters. -/
structure HeaderName where
  text : String
  valid : isHeaderName text = true
  deriving DecidableEq

namespace HeaderName

/-- The name that a text spells in any case. -/
def ofText? (s : String) : Option HeaderName :=
  if h : isHeaderName (Text.foldCase s) = true then some ⟨Text.foldCase s, h⟩ else none

def host : HeaderName := ⟨"host", by decide⟩

def contentType : HeaderName := ⟨"content-type", by decide⟩

def contentLength : HeaderName := ⟨"content-length", by decide⟩

def transferEncoding : HeaderName := ⟨"transfer-encoding", by decide⟩

def allow : HeaderName := ⟨"allow", by decide⟩

def requestId : HeaderName := ⟨"x-request-id", by decide⟩

theorem text_injective {n m : HeaderName} (h : n.text = m.text) : n = m := by
  cases n; cases m; cases h; rfl

end HeaderName

/-! ## Values -/

/-- The bytes that a header value may hold: no controls, but tabs. -/
def isValueByte (b : UInt8) : Bool := (0x20 ≤ b && b != 0x7F) || b == 0x09

/-- A header value. -/
structure HeaderValue where
  bytes : Bytes
  valid : bytes.all isValueByte = true
  deriving DecidableEq

namespace HeaderValue

/-- The value made of these bytes. -/
def ofBytes? (b : Bytes) : Option HeaderValue :=
  if h : b.all isValueByte = true then some ⟨b, h⟩ else none

def ofText? (s : String) : Option HeaderValue := ofBytes? (Text.encode s)

/-- The value as text, if it is printable ASCII throughout. -/
def text? (v : HeaderValue) : Option String :=
  if v.bytes.all Text.isVisible then
    some (String.ofList (v.bytes.map fun b => Char.ofNat b.toNat))
  else none

end HeaderValue

/-! ## Maps -/

/-- The headers of a message: names in the order they first came, each with its values in order. -/
structure HeaderMap where
  groups : List (HeaderName × List HeaderValue)
  nodup : (groups.map Prod.fst).Nodup := by simp

namespace HeaderMap

/-- No headers. -/
def empty : HeaderMap where
  groups := []

/-- The values of a name. -/
def values (m : HeaderMap) (n : HeaderName) : List HeaderValue :=
  ((m.groups.find? fun g => g.1 == n).map Prod.snd).getD []

def first? (m : HeaderMap) (n : HeaderName) : Option HeaderValue := (m.values n).head?

/-- The first value of a name as text. -/
def firstText? (m : HeaderMap) (n : HeaderName) : Option String :=
  (m.first? n).bind HeaderValue.text?

/-- The headers, one pair for each value. -/
def toList (m : HeaderMap) : List (HeaderName × HeaderValue) :=
  m.groups.flatMap fun g => g.2.map fun v => (g.1, v)

theorem map_fst_map_update (gs : List (HeaderName × List HeaderValue)) (n : HeaderName)
    (f : List HeaderValue → List HeaderValue) :
    (gs.map fun g => if g.1 = n then (g.1, f g.2) else g).map Prod.fst = gs.map Prod.fst := by
  rw [List.map_map]
  apply List.map_congr_left
  intro g _
  simp only [Function.comp]
  split <;> rfl

/-- Changes the values of a name; a name that is new goes to the end. -/
def update (m : HeaderMap) (n : HeaderName) (f : List HeaderValue → List HeaderValue) : HeaderMap :=
  if h : n ∈ m.groups.map Prod.fst then
    { groups := m.groups.map fun g => if g.1 = n then (g.1, f g.2) else g
      nodup := by
        rw [map_fst_map_update]
        exact m.nodup }
  else
    { groups := m.groups ++ [(n, f [])]
      nodup := by
        rw [List.map_append, List.nodup_append]
        refine ⟨m.nodup, by simp, ?_⟩
        intro a ha b hb
        simp only [List.map_cons, List.map_nil, List.mem_singleton] at hb
        rintro rfl
        exact h (hb ▸ ha) }

/-- Adds a value after those that the name has. -/
def append (m : HeaderMap) (n : HeaderName) (v : HeaderValue) : HeaderMap :=
  m.update n (· ++ [v])

/-- Makes `v` the only value of the name. -/
def insert (m : HeaderMap) (n : HeaderName) (v : HeaderValue) : HeaderMap :=
  m.update n fun _ => [v]

/-- The map that holds these headers. -/
def ofList (hs : List (HeaderName × HeaderValue)) : HeaderMap :=
  hs.foldl (fun m h => m.append h.1 h.2) empty

/-- The headers whose values can be shown as text. -/
def texts (m : HeaderMap) : List (String × String) :=
  m.toList.filterMap fun (n, v) => v.text?.map fun t => (n.text, t)

private theorem find?_map_update (gs : List (HeaderName × List HeaderValue)) (n k : HeaderName)
    (f : List HeaderValue → List HeaderValue) :
    (gs.map fun g => if g.1 = n then (g.1, f g.2) else g).find? (fun g => g.1 == k) =
      (gs.find? fun g => g.1 == k).map fun g => if g.1 = n then (g.1, f g.2) else g := by
  induction gs with
  | nil => rfl
  | cons g gs ih =>
    have e : (if g.1 = n then (g.1, f g.2) else g).1 = g.1 := by split <;> rfl
    rw [List.map_cons, List.find?_cons, List.find?_cons, e, ih]
    split <;> rfl

/-- An update changes the values of its name and no others. -/
theorem values_update (m : HeaderMap) (n k : HeaderName)
    (f : List HeaderValue → List HeaderValue) :
    (m.update n f).values k = if k = n then f (m.values n) else m.values k := by
  unfold update
  split
  · rename_i h
    simp only [values]
    rw [find?_map_update]
    obtain ⟨g, hg, rfl⟩ := List.mem_map.1 h
    by_cases hk : k = g.1
    · subst hk
      have : ((m.groups.find? fun x => x.1 == g.1).isSome) = true :=
        List.find?_isSome.2 ⟨g, hg, by simp⟩
      obtain ⟨x, hx⟩ := Option.isSome_iff_exists.1 this
      have hx' : x.1 = g.1 := by simpa using List.find?_some hx
      simp [hx, hx']
    · rw [if_neg hk]
      cases hx : m.groups.find? fun x => x.1 == k with
      | none => rfl
      | some x =>
        have hx' : x.1 = k := by simpa using List.find?_some hx
        simp [hx', hk]
  · rename_i h
    have hnone : m.groups.find? (fun x => x.1 == n) = none := by
      rw [List.find?_eq_none]
      intro x hx he
      exact h (List.mem_map.2 ⟨x, hx, by simpa using he⟩)
    simp only [values, List.find?_append]
    by_cases hk : k = n
    · subst hk
      simp [hnone]
    · rw [if_neg hk]
      cases hx : m.groups.find? fun x => x.1 == k with
      | none =>
        have : (n == k) = false := by simpa using fun e : n = k => hk e.symm
        simp [this]
      | some x => simp

theorem values_append (m : HeaderMap) (n k : HeaderName) (v : HeaderValue) :
    (m.append n v).values k = if k = n then m.values n ++ [v] else m.values k :=
  values_update m n k _

theorem values_insert (m : HeaderMap) (n k : HeaderName) (v : HeaderValue) :
    (m.insert n v).values k = if k = n then [v] else m.values k :=
  values_update m n k _

end HeaderMap
end EgressAuth.Http
