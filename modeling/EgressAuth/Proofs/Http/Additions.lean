/-
  EgressAuth.Proofs.Http.Additions

  What adding headers to a request changes. Of the headers in a list an HTTP
  request gets the sendable ones, those whose name is a token and whose value
  has no control bytes but tabs (`pairs_texts`); every name keeps the values
  that it had and gets the added ones behind them (`values_appendAll`). A bare
  list gets all of them at its end. `InboundRequest.Gains` says both without
  the functions that add, and adding headers does just that (`gains_addAll`).
-/
import EgressAuth.Interception.Host
import EgressAuth.Proofs.Text.LetterCase

namespace EgressAuth

/-! ## Names and values -/

namespace Http

theorem isTokenChar_toLower (c : Char) : isTokenChar c.toLower = isTokenChar c := by
  refine Text.class_toLower (fun d hd => ?_) c
  simp [isTokenChar, Char.isAlphanum, hd]

/-- A text in any case is a header name if it is a token that is not too long. -/
theorem isHeaderName_foldCase (s : String) :
    isHeaderName (Text.foldCase s) =
      (!s.toList.isEmpty && decide (s.toList.length ≤ maxNameLength) &&
        s.toList.all isTokenChar) := by
  have hall : ∀ cs : List Char,
      (cs.map Char.toLower).all (fun c => isTokenChar c && !c.isUpper) = cs.all isTokenChar := by
    intro cs
    rw [List.all_map]
    congr 1
    funext c
    rw [Function.comp, isTokenChar_toLower, Text.isUpper_toLower, Bool.not_false,
      Bool.and_true]
  simp only [isHeaderName, Text.toList_foldCase, hall, List.isEmpty_map, List.length_map]

theorem HeaderName.ofText?_eq_some_iff {s : String} {n : HeaderName} :
    ofText? s = some n ↔ isHeaderName (Text.foldCase s) = true ∧ n.text = Text.foldCase s := by
  unfold ofText?
  split
  · rename_i h
    rw [Option.some_inj]
    constructor
    · rintro rfl
      exact ⟨h, rfl⟩
    · rintro ⟨-, htext⟩
      exact text_injective htext.symm
  · rename_i h
    simp [h]

theorem HeaderValue.ofText?_eq_some_iff {s : String} {v : HeaderValue} :
    ofText? s = some v ↔ (Text.encode s).all isValueByte = true ∧ v.bytes = Text.encode s := by
  unfold ofText? ofBytes?
  split
  · rename_i h
    rw [Option.some_inj]
    constructor
    · rintro rfl
      exact ⟨h, rfl⟩
    · rintro ⟨-, hbytes⟩
      cases v
      cases hbytes
      rfl
  · rename_i h
    simp only [reduceCtorEq, false_iff]
    exact fun hv => h hv.1

end Http

/-! ## Sendable headers -/

namespace AuthHeader

/-- Whether a header can be sent: its name is a token that is not too long, and its value has no
control bytes but tabs. -/
def isSendable (h : AuthHeader) : Bool :=
  !h.name.toList.isEmpty && decide (h.name.toList.length ≤ Http.maxNameLength) &&
    h.name.toList.all Http.isTokenChar && (Text.encode h.value).all Http.isValueByte

/-- The name and the value that a header is sent with, if it can be sent. -/
def pair? (h : AuthHeader) : Option (Http.HeaderName × Http.HeaderValue) :=
  (Http.HeaderName.ofText? h.name).bind fun n => (Http.HeaderValue.ofText? h.value).map fun v =>
    (n, v)

theorem pair?_eq_some_iff {h : AuthHeader} {p : Http.HeaderName × Http.HeaderValue} :
    h.pair? = some p ↔
      h.isSendable = true ∧ p.1.text = Text.foldCase h.name ∧ p.2.bytes = Text.encode h.value := by
  have hsendable : h.isSendable = true ↔
      Http.isHeaderName (Text.foldCase h.name) = true ∧
        (Text.encode h.value).all Http.isValueByte = true := by
    rw [isSendable, Http.isHeaderName_foldCase, Bool.and_eq_true]
  rw [hsendable]
  constructor
  · intro hp
    obtain ⟨n, hn, hp⟩ := Option.bind_eq_some_iff.1 hp
    obtain ⟨v, hv, rfl⟩ := Option.map_eq_some_iff.1 hp
    obtain ⟨hname, htext⟩ := Http.HeaderName.ofText?_eq_some_iff.1 hn
    obtain ⟨hvalue, hbytes⟩ := Http.HeaderValue.ofText?_eq_some_iff.1 hv
    exact ⟨⟨hname, hvalue⟩, htext, hbytes⟩
  · rintro ⟨⟨hname, hvalue⟩, htext, hbytes⟩
    have hn := Http.HeaderName.ofText?_eq_some_iff.2 ⟨hname, htext⟩
    have hv := Http.HeaderValue.ofText?_eq_some_iff.2 ⟨hvalue, hbytes⟩
    rw [pair?, hn, hv]
    rfl

theorem isSome_pair? (h : AuthHeader) : h.pair?.isSome = h.isSendable := by
  cases hs : h.isSendable with
  | true =>
      have hs' := hs
      rw [isSendable, ← Http.isHeaderName_foldCase, Bool.and_eq_true] at hs'
      have hp := pair?_eq_some_iff (p := (⟨_, hs'.1⟩, ⟨_, hs'.2⟩)).2 ⟨hs, rfl, rfl⟩
      rw [hp]
      rfl
  | false =>
      cases hp : h.pair? with
      | none => rfl
      | some p =>
          obtain ⟨hyes, -⟩ := pair?_eq_some_iff.1 hp
          rw [hs] at hyes
          cases hyes

/-- What is sent of some headers, in order. -/
def pairs (hs : List AuthHeader) : List (Http.HeaderName × Http.HeaderValue) := hs.filterMap pair?

/-- Exactly the sendable headers are sent, with their names in small letters. -/
theorem pairs_texts (hs : List AuthHeader) :
    (pairs hs).map (fun p => (p.1.text, p.2.bytes)) =
      (hs.filter isSendable).map fun h => (Text.foldCase h.name, Text.encode h.value) := by
  unfold pairs
  induction hs with
  | nil => rfl
  | cons h hs ih =>
      cases hp : h.pair? with
      | none =>
          have hno : h.isSendable = false := by
            rw [← isSome_pair?, hp]
            rfl
          rw [List.filterMap_cons_none hp, List.filter_cons, hno, ih]
          rfl
      | some p =>
          obtain ⟨hyes, hname, hvalue⟩ := pair?_eq_some_iff.1 hp
          rw [List.filterMap_cons_some hp, List.filter_cons_of_pos hyes, List.map_cons,
            List.map_cons, ih, hname, hvalue]

/-- The values that a name is sent with. -/
theorem pairs_values (hs : List AuthHeader) (n : Http.HeaderName) :
    ((pairs hs).filter fun p => p.1 = n).map (fun p => p.2.bytes) =
      ((hs.filter isSendable).filter fun h => Text.foldCase h.name = n.text).map
        fun h => Text.encode h.value := by
  have hname (p : Http.HeaderName × Http.HeaderValue) : p.1 = n ↔ p.1.text = n.text :=
    ⟨congrArg _, Http.HeaderName.text_injective⟩
  -- Both sides are the texts of one name among those that are sent.
  have htexts := congrArg (fun l => (l.filter fun x => x.1 = n.text).map Prod.snd) (pairs_texts hs)
  simpa only [List.filter_map, List.map_map, Function.comp_def, ← hname] using htexts

end AuthHeader

/-! ## Header maps -/

namespace Http.HeaderMap

/-- The map with some headers appended one after the other. -/
def appendAll (m : HeaderMap) (hs : List (HeaderName × HeaderValue)) : HeaderMap :=
  hs.foldl (fun m h => m.append h.1 h.2) m

/-- Every name keeps its values, and gets the appended ones behind them. -/
theorem values_appendAll (m : HeaderMap) (hs : List (HeaderName × HeaderValue)) (n : HeaderName) :
    (m.appendAll hs).values n = m.values n ++ (hs.filter fun h => h.1 = n).map Prod.snd := by
  unfold appendAll
  induction hs generalizing m with
  | nil => simp
  | cons h hs ih =>
      -- The values of `h` come right behind those that were there, before all later ones.
      rw [List.foldl_cons, ih, values_append, List.filter_cons]
      by_cases hn : n = h.1
      · simp [hn]
      · simp [hn, Ne.symm hn]

/-- The names, in the order in which they first came. -/
def names (m : HeaderMap) : List HeaderName := m.groups.map Prod.fst

/-- A new name comes behind the others. -/
theorem names_append (m : HeaderMap) (n : HeaderName) (v : HeaderValue) :
    (m.append n v).names = if n ∈ m.names then m.names else m.names ++ [n] := by
  unfold names append update
  split
  · exact map_fst_map_update m.groups n (· ++ [v])
  · exact List.map_append

theorem names_appendAll (m : HeaderMap) (hs : List (HeaderName × HeaderValue)) :
    m.names <+: (m.appendAll hs).names := by
  unfold appendAll
  induction hs generalizing m with
  | nil => exact List.prefix_rfl
  | cons h hs ih =>
      refine List.IsPrefix.trans ?_ (ih (m.append h.1 h.2))
      rw [names_append]
      split
      · exact List.prefix_rfl
      · exact List.prefix_append _ _

end Http.HeaderMap

/-! ## Requests -/

namespace InboundRequest

/-- `q` is `r` with the headers `hs` behind its own. A bare list has them all at its end. In an
HTTP request the names that were there keep their places, every name has got the values of those
headers that can be sent under it, and nothing else is changed. -/
inductive Gains (hs : List AuthHeader) : InboundRequest → InboundRequest → Prop where
  | listed (ms : List (String × String)) :
      Gains hs (.listed ms) (.listed (ms ++ hs.map fun h => (h.name, h.value)))
  | http {r q : Http.Request} (method : q.method = r.method) (uri : q.uri = r.uri)
      (body : q.body = r.body) (names : r.headers.names <+: q.headers.names)
      (values : ∀ n, (q.headers.values n).map Http.HeaderValue.bytes =
        (r.headers.values n).map Http.HeaderValue.bytes ++
          ((hs.filter AuthHeader.isSendable).filter fun h => Text.foldCase h.name = n.text).map
            fun h => Text.encode h.value) :
      Gains hs (.http r) (.http q)

theorem addAll_listed (ms : List (String × String)) (hs : List AuthHeader) :
    (listed ms).addAll hs = .listed (ms ++ hs.map fun h => (h.name, h.value)) := by
  unfold addAll
  induction hs generalizing ms with
  | nil => rw [List.foldl_nil, List.map_nil, List.append_nil]
  | cons h hs ih =>
      rw [List.foldl_cons, add, ih, List.append_assoc]
      rfl

/-- A header that cannot be sent is not added. -/
theorem addText_eq (r : Http.Request) (h : AuthHeader) :
    r.addText h.name h.value = match h.pair? with
      | none => r
      | some p => { r with headers := r.headers.append p.1 p.2 } := by
  unfold Http.Request.addText AuthHeader.pair?
  cases Http.HeaderName.ofText? h.name with
  | none => rfl
  | some n => cases Http.HeaderValue.ofText? h.value <;> rfl

/-- A request with added headers differs in these alone. -/
theorem addAll_http (r : Http.Request) (hs : List AuthHeader) :
    (InboundRequest.http r).addAll hs =
      .http { r with headers := r.headers.appendAll (AuthHeader.pairs hs) } := by
  unfold addAll AuthHeader.pairs Http.HeaderMap.appendAll
  induction hs generalizing r with
  | nil => rfl
  | cons h hs ih =>
      rw [List.foldl_cons, add, ih, addText_eq]
      cases hp : h.pair? with
      | none => rw [List.filterMap_cons_none hp]
      | some p =>
          rw [List.filterMap_cons_some hp]
          rfl

theorem gains_addAll (r : InboundRequest) (hs : List AuthHeader) : Gains hs r (r.addAll hs) := by
  cases r with
  | listed ms =>
      rw [addAll_listed]
      exact .listed ms
  | http r =>
      rw [addAll_http]
      refine .http rfl rfl rfl (Http.HeaderMap.names_appendAll _ _) fun n => ?_
      rw [Http.HeaderMap.values_appendAll, List.map_append, List.map_map,
        ← AuthHeader.pairs_values]
      rfl

end InboundRequest
end EgressAuth
