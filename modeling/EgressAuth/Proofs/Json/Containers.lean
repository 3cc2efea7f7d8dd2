/-
  EgressAuth.Proofs.Json.Containers

  What it means that a reader reads a written item (`Reader.Reads`), and that
  this passes from the items to the containers around them: to lists, to
  objects and to records. The text behind an item is left open as far as a
  written text may go on there, so the statements compose without any account
  of positions.
-/
import EgressAuth.Json.Record
import EgressAuth.Proofs.Json.Combinators
import EgressAuth.Proofs.Json.Literals

namespace EgressAuth.Json

variable {α β ι : Type}

/-! ## Written items -/

/-- The bytes that a written value may begin with. -/
def startsValue (b : UInt8) : Bool := !isBlank b && b != closeList && b != closeObject

/-- A reader takes the item `a` off every text that begins with the written item `w`. -/
structure Reader.Reads (p : Reader α) (w : Bytes) (a : α) : Prop where
  starts : ∃ b t, w = b :: t ∧ startsValue b = true
  run : ∀ r, Ends r → p.run (w ++ r) = some (a, r)

/-- The bytes that close a container. -/
def Closes (c : UInt8) : Prop := c = closeList ∨ c = closeObject

theorem Closes.endsValue {c : UInt8} (hc : Closes c) : endsValue c = true := by
  rcases hc with rfl | rfl <;> decide

theorem not_blank_of_endsValue {b : UInt8} (h : endsValue b = true) : isBlank b = false := by
  have h' : b = comma ∨ b = closeList ∨ b = closeObject := by
    simpa [endsValue, or_assoc] using h
  rcases h' with rfl | rfl | rfl <;> decide

theorem Closes.ne_comma {c : UInt8} (hc : Closes c) : c ≠ comma := by
  rcases hc with rfl | rfl <;> decide

theorem skipBlank_append_of_starts {w : Bytes} (h : ∃ b t, w = b :: t ∧ startsValue b = true)
    (r : Bytes) : skipBlank (w ++ r) = w ++ r := by
  obtain ⟨b, t, rfl, hb⟩ := h
  have hblank : isBlank b = false := by
    simp only [startsValue, Bool.and_eq_true, Bool.not_eq_true'] at hb
    exact hb.1.1
  exact skipBlank_cons_of_not_blank hblank

theorem expect_closing_of_starts {w : Bytes} (h : ∃ b t, w = b :: t ∧ startsValue b = true)
    {c : UInt8} (hc : Closes c) (r : Bytes) : expect c (w ++ r) = none := by
  have hskip := skipBlank_append_of_starts h r
  obtain ⟨b, t, rfl, hb⟩ := h
  have hne : b ≠ c := by
    rintro rfl
    rcases hc with rfl | rfl <;> exact absurd hb (by decide)
  rw [expect, hskip]
  simp only [List.cons_append, if_neg hne]

namespace Reader.Reads

variable {p q : Reader α} {w : Bytes} {a : α}

theorem skipBlank_append (h : p.Reads w a) (r : Bytes) : skipBlank (w ++ r) = w ++ r :=
  skipBlank_append_of_starts h.starts r

/-- A container that begins with a written item is not empty. -/
theorem expect_closing (h : p.Reads w a) {c : UInt8} (hc : Closes c) (r : Bytes) :
    expect c (w ++ r) = none :=
  expect_closing_of_starts h.starts hc r

theorem map (h : p.Reads w a) (f : α → β) : (p.map f).Reads w (f a) where
  starts := h.starts
  run r hr := by simp [Reader.map, h.run r hr]

theorem filterMap (h : p.Reads w a) {f : α → Option β} {b : β} (hf : f a = some b) :
    (p.filterMap f).Reads w b where
  starts := h.starts
  run r hr := by simp [Reader.filterMap, h.run r hr, hf]

theorem orElse_left (h : p.Reads w a) (q : Reader α) : (p.orElse q).Reads w a where
  starts := h.starts
  run r hr := by simp [Reader.orElse, h.run r hr]

theorem orElse_right (h : q.Reads w a) (hp : ∀ r, p.run (w ++ r) = none) :
    (p.orElse q).Reads w a where
  starts := h.starts
  run r hr := by simp [Reader.orElse, hp, h.run r hr]

/-- A text that is one written item is read as that item. -/
theorem readAll (h : p.Reads w a) : p.readAll w = some a := by
  have hrun := h.run [] ends_nil
  have hskip := h.skipBlank_append []
  rw [List.append_nil] at hrun hskip
  simp [Reader.readAll, hskip, hrun]

end Reader.Reads

theorem text_reads (s : String) : Reader.text.Reads (quoted s) s where
  starts := ⟨quote, _, rfl, by decide⟩
  run r _ := text_run_quoted s r

theorem startsValue_of_isDigit {d : UInt8} (h : Decimal.isDigit d = true) :
    startsValue d = true := by
  have hd : 0x30 ≤ d.toNat ∧ d.toNat ≤ 0x39 := by
    simpa [Decimal.isDigit, UInt8.le_iff_toNat_le] using h
  have hne (b : UInt8) (hb : b.toNat < 0x30 ∨ 0x39 < b.toNat) : d ≠ b := by
    rintro rfl
    omega
  simp [startsValue, isBlank, hne 0x20 (by decide), hne 0x09 (by decide), hne 0x0A (by decide),
    hne 0x0D (by decide), hne closeList (by decide), hne closeObject (by decide)]

theorem intIn_reads {low high i : Int} (hlow : low ≤ i) (hhigh : i ≤ high) (h : FitsWord i) :
    (Reader.intIn low high).Reads (intBytes i) i where
  starts := by
    unfold intBytes
    split
    · exact ⟨0x2D, _, rfl, by decide⟩
    · obtain ⟨d, ds, hds⟩ := List.exists_cons_of_ne_nil (Decimal.digits_ne_nil i.natAbs)
      refine ⟨d, ds, hds, startsValue_of_isDigit ?_⟩
      exact Decimal.isDigit_of_mem_digits (n := i.natAbs) (by rw [hds]; exact List.mem_cons_self)
  run r hr := by
    simp [Reader.intIn, Reader.filterMap, number_run_intBytes h hr, hlow, hhigh]

/-! ## Containers -/

/-- Texts with commas between them. -/
def joined : List Bytes → Bytes
  | [] => []
  | [w] => w
  | w :: v :: ws => w ++ comma :: joined (v :: ws)

theorem renderItems_eq_joined (js : List Json) : renderItems js = joined (js.map render) := by
  induction js with
  | nil => rfl
  | cons j js ih =>
      cases js with
      | nil => rfl
      | cons k js =>
          rw [renderItems, ih]
          rfl

/-- The text of a member. -/
def memberText (m : String × Json) : Bytes := quoted m.1 ++ colon :: render m.2

theorem renderMembers_eq_joined (ms : List (String × Json)) :
    renderMembers ms = joined (ms.map memberText) := by
  induction ms with
  | nil => rfl
  | cons m ms ih =>
      obtain ⟨name, j⟩ := m
      cases ms with
      | nil => rfl
      | cons m' ms =>
          rw [renderMembers, ih]
          simp [joined, memberText]

/-- A written item is taken off an open container; the byte behind it decides. -/
theorem items_step {p : Reader α} {w : Bytes} {a : α} (h : p.Reads w a) {b : UInt8}
    (hb : endsValue b = true) (c : UInt8) (t : Bytes) (acc : List α) :
    p.items c (w ++ b :: t) acc =
      if b = comma then p.items c t (a :: acc)
      else if b = c then some ((a :: acc).reverse, t)
      else none := by
  have hitem : p.run (skipBlank (w ++ b :: t)) = some (a, b :: t) := by
    rw [h.skipBlank_append]
    exact h.run (b :: t) (ends_cons hb t)
  have hblank : isBlank b = false := not_blank_of_endsValue hb
  exact Reader.items_of_run hitem (skipBlank_cons_of_not_blank hblank) acc

/-- The items of an open container read back up to its closing byte. -/
theorem items_joined {p : Reader α} {w : ι → Bytes} {v : ι → α} {c : UInt8} (hc : Closes c)
    (x : ι) (xs : List ι) (h : ∀ y ∈ x :: xs, p.Reads (w y) (v y)) (r : Bytes) (acc : List α) :
    p.items c (joined ((x :: xs).map w) ++ c :: r) acc =
      some (acc.reverse ++ (x :: xs).map v, r) := by
  -- All items but the last one are followed by a comma, the last one by the closing byte.
  induction xs generalizing x acc with
  | nil =>
      show p.items c (w x ++ c :: r) acc = _
      rw [items_step (h x List.mem_cons_self) hc.endsValue, if_neg hc.ne_comma, if_pos rfl]
      simp
  | cons y ys ih =>
      have htext : joined ((x :: y :: ys).map w) ++ c :: r =
          w x ++ comma :: (joined ((y :: ys).map w) ++ c :: r) := by
        simp [joined]
      rw [htext, items_step (h x List.mem_cons_self) (by decide), if_pos rfl,
        ih y fun z hz => h z (List.mem_cons_of_mem _ hz)]
      simp

/-- A container reads back if its items do. -/
theorem container_reads {p : Reader α} {w : ι → Bytes} {v : ι → α} {o c : UInt8}
    (ho : startsValue o = true) (hc : Closes c) {xs : List ι}
    (h : ∀ x ∈ xs, p.Reads (w x) (v x)) :
    (p.container o c).Reads (o :: (joined (xs.map w) ++ [c])) (xs.map v) where
  starts := ⟨o, _, rfl, ho⟩
  run r _ := by
    have htext : o :: (joined (xs.map w) ++ [c]) ++ r = o :: (joined (xs.map w) ++ c :: r) := by
      simp
    rw [htext]
    refine Reader.container_run_eq_some_iff.2 ⟨_, rfl, ?_⟩
    cases xs with
    | nil =>
        have hclose : expect c (c :: r) = some r := by
          rw [expect, skipBlank_cons_of_not_blank (not_blank_of_endsValue hc.endsValue)]
          simp
        exact Or.inl ⟨hclose, rfl⟩
    | cons x xs =>
        -- No written item begins with a closing byte, so the container is not taken for empty.
        have hopen : expect c (joined ((x :: xs).map w) ++ c :: r) = none := by
          cases xs with
          | nil => exact (h x List.mem_cons_self).expect_closing hc (c :: r)
          | cons y ys =>
              simp only [List.map_cons, joined, List.append_assoc]
              exact (h x List.mem_cons_self).expect_closing hc _
        exact Or.inr ⟨hopen, items_joined hc x xs h r []⟩

/-- A list reads back if its items do. -/
theorem list_reads {p : Reader α} {f : ι → Json} {v : ι → α} {xs : List ι}
    (h : ∀ x ∈ xs, p.Reads (render (f x)) (v x)) :
    (p.container openList closeList).Reads (render (list (xs.map f))) (xs.map v) := by
  have hr : render (list (xs.map f)) =
      openList :: (joined (xs.map fun x => render (f x)) ++ [closeList]) := by
    simp [render, renderItems_eq_joined, Function.comp_def]
  rw [hr]
  exact container_reads (by decide) (Or.inl rfl) h

/-! ## Records -/

theorem keyed_reads {f : String → Reader α} {m : String × Json} {a : α}
    (h : (f m.1).Reads (render m.2) a) : (Reader.keyed f).Reads (memberText m) a where
  starts := ⟨quote, _, rfl, by decide⟩
  run r hr := by
    have htext : memberText m ++ r = quoted m.1 ++ colon :: (render m.2 ++ r) := by
      simp [memberText]
    have hcolon : expect colon (colon :: (render m.2 ++ r)) = some (render m.2 ++ r) := by
      rw [expect, skipBlank_cons_of_not_blank (by decide)]
      simp
    rw [htext]
    refine Reader.keyed_run_eq_some_iff.2 ⟨m.1, _, _, text_run_quoted m.1 _, hcolon, ?_⟩
    rw [h.skipBlank_append r]
    exact h.run r hr

/-- A record reads back from the object of its two fields in order. -/
theorem fullRecord_reads {first second : String} {p : Reader α} {q : Reader β} {j k : Json}
    {a : α} {b : β} (hne : second ≠ first) (hp : p.Reads (render j) a)
    (hq : q.Reads (render k) b) :
    (Reader.fullRecord first second p q).Reads (render (object [(first, j), (second, k)]))
      (a, b) := by
  let fields : List ((String × Json) × Field α β) :=
    [((first, j), .first a), ((second, k), .second b)]
  have hr : render (object [(first, j), (second, k)]) =
      openObject :: (joined (fields.map fun x => memberText x.1) ++ [closeObject]) := by
    simp [render, renderMembers_eq_joined, fields]
  have hobject : (Reader.recordObject first second p q).Reads
      (openObject :: (joined (fields.map fun x => memberText x.1) ++ [closeObject]))
      (some a, some b) := by
    -- The name of a member picks the reader of its value.
    refine (container_reads (v := Prod.snd) (by decide) (Or.inr rfl) ?_).filterMap rfl
    intro x hx
    rcases List.mem_cons.1 hx with rfl | hx
    · refine keyed_reads ?_
      rw [if_pos rfl]
      exact hp.map Field.first
    · rw [List.mem_singleton.1 hx]
      refine keyed_reads ?_
      rw [if_neg hne, if_pos rfl]
      exact hq.map Field.second
  rw [hr]
  exact (hobject.orElse_left _).filterMap rfl

/-! ## Values -/

/-- A written string is read as a value, at any depth. -/
theorem value_reads_string (depth : Nat) (s : String) :
    (Reader.value depth).Reads (render (string s)) (string s) := by
  have htext : (Reader.text.map string).Reads (render (string s)) (string s) :=
    (text_reads s).map string
  -- Neither a word nor a number begins with a quote.
  have hscalar : Reader.scalar.Reads (render (string s)) (string s) :=
    (htext.orElse_right fun _ => rfl).orElse_right fun _ => rfl
  cases depth with
  | zero => exact hscalar
  | succ depth => exact hscalar.orElse_left _

/-- An object that holds nothing but strings reads back. -/
theorem read?_render_strings (ms : List (String × String)) :
    read? (render (object (ms.map fun m => (m.1, string m.2)))) =
      some (object (ms.map fun m => (m.1, string m.2))) := by
  have hmembers : ∀ m ∈ ms.map fun m => (m.1, string m.2),
      (Reader.keyed fun name => (Reader.value 126).map fun v => (name, v)).Reads
        (memberText m) m := by
    intro m hm
    obtain ⟨⟨name, s⟩, -, rfl⟩ := List.mem_map.1 hm
    exact keyed_reads ((value_reads_string 126 s).map _)
  have hobject := (container_reads (o := openObject) (c := closeObject) (v := id) (by decide)
    (Or.inr rfl) hmembers).map object
  rw [List.map_id] at hobject
  have hr : render (object (ms.map fun m => (m.1, string m.2))) =
      openObject :: (joined ((ms.map fun m => (m.1, string m.2)).map memberText) ++
        [closeObject]) := by
    rw [render, renderMembers_eq_joined]
  rw [hr]
  -- No scalar and no list begins with a brace.
  exact Reader.Reads.readAll ((hobject.orElse_right fun _ => rfl).orElse_right fun _ => rfl)

end EgressAuth.Json
