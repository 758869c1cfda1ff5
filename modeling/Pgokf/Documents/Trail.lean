import Pgokf.Documents.Attribution
import Mathlib.Data.Bool.Basic

/-! # The verification record of a document over its versions -/

namespace Pgokf.Documents

open Pgokf.Lib

variable {F : Type}

/- `==` on YAML values: mappings are compared field by field, in whatever order they stand. -/
structure ValueEq (F : Type) where
  eq : Yaml F → Yaml F → Bool
  refl : ∀ v, eq v v = true
  symm : ∀ {v w}, eq v w = true → eq w v = true
  trans : ∀ {v w u}, eq v w = true → eq w u = true → eq v u = true
  string : ∀ {t v}, eq (.string t) v = true → v = .string t
  mapping : ∀ {a v}, eq (.mapping a) v = true → ∃ b, v = .mapping b ∧
    ∀ k x, OrderedMap.get a k = some x → ∃ y, OrderedMap.get b k = some y ∧ eq x y = true

namespace ValueEq

variable (E : ValueEq F)

def Within (a b : Mapping F) : Prop :=
  ∀ k x, OrderedMap.get a k = some x → ∃ y, OrderedMap.get b k = some y ∧ E.eq x y = true

theorem Within.trans {a b c : Mapping F} (hab : E.Within a b) (hbc : E.Within b c) :
    E.Within a c := by
  intro k x hx
  obtain ⟨y, hy, hxy⟩ := hab k x hx
  obtain ⟨z, hz, hyz⟩ := hbc k y hy
  exact ⟨z, hz, E.trans hxy hyz⟩

/-- The fields an event brings into the record: a mapping's own, anything else as the `event`. -/
def ownFields : Yaml F → Mapping F
  | .mapping m => m
  | other => [(field "event", other)]

theorem within_ownFields {v w : Yaml F} (h : E.eq v w = true) :
    E.Within (ownFields v) (ownFields w) := by
  cases v with
  | mapping a =>
    obtain ⟨b, rfl, hb⟩ := E.mapping h
    exact hb
  | _ =>
    cases w with
    | mapping b =>
      obtain ⟨a, ha, -⟩ := E.mapping (E.symm h)
      cases ha
    | _ =>
      intro k x hx
      simp only [ownFields, OrderedMap.get] at hx ⊢
      split at hx
      next hk =>
        cases hx
        exact ⟨_, if_pos hk, h⟩
      next => cases hx

/-- The event stands as it was, or as an entry that has all of its fields. -/
def Intact (v w : Yaml F) : Prop :=
  E.eq v w = true ∨ ∃ m, w = .mapping m ∧ E.Within (ownFields v) m

theorem Intact.trans {v w u : Yaml F} (hvw : E.Intact v w) (hwu : E.Intact w u) :
    E.Intact v u := by
  rcases hwu with hwu | ⟨m, rfl, hm⟩
  · rcases hvw with hvw | ⟨m, rfl, hm⟩
    · exact .inl (E.trans hvw hwu)
    · obtain ⟨b, rfl, hb⟩ := E.mapping hwu
      exact .inr ⟨b, rfl, hm.trans E hb⟩
  · refine .inr ⟨m, rfl, ?_⟩
    rcases hvw with hvw | ⟨m', rfl, hm'⟩
    · exact (E.within_ownFields hvw).trans E hm
    · exact hm'.trans E hm

end ValueEq

section Structural

variable [DecidableEq F]

mutual

def Yaml.same : Yaml F → Yaml F → Bool
  | .null, .null => true
  | .bool a, .bool b => a == b
  | .number a, .number b => decide (a = b)
  | .string a, .string b => decide (a = b)
  | .sequence a, .sequence b => sameItems a b
  | .mapping a, .mapping b => sameFields a b
  | .tagged s v, .tagged t w => decide (s = t) && v.same w
  | _, _ => false

def sameItems : List (Yaml F) → List (Yaml F) → Bool
  | [], [] => true
  | v :: a, w :: b => v.same w && sameItems a b
  | _, _ => false

def sameFields : List (Key × Yaml F) → List (Key × Yaml F) → Bool
  | [], [] => true
  | (j, v) :: a, (k, w) :: b => decide (j = k) && v.same w && sameFields a b
  | _, _ => false

end

mutual

theorem Yaml.same_iff : (v w : Yaml F) → (v.same w = true ↔ v = w)
  | .null, w | .bool _, w | .number _, w | .string _, w => by cases w <;> simp [Yaml.same]
  | .sequence a, w => by cases w <;> simp [Yaml.same, sameItems_iff a]
  | .mapping a, w => by cases w <;> simp [Yaml.same, sameFields_iff a]
  | .tagged _ v, w => by cases w <;> simp [Yaml.same, Yaml.same_iff v]

theorem sameItems_iff : (a b : List (Yaml F)) → (sameItems a b = true ↔ a = b)
  | [], b => by cases b <;> simp [sameItems]
  | v :: a, b => by cases b <;> simp [sameItems, Yaml.same_iff v, sameItems_iff a]

theorem sameFields_iff : (a b : List (Key × Yaml F)) → (sameFields a b = true ↔ a = b)
  | [], b => by cases b <;> simp [sameFields]
  | (j, v) :: a, b => by
    cases b with
    | nil => simp [sameFields]
    | cons e b => simp [sameFields, Yaml.same_iff v, sameFields_iff a, Prod.ext_iff]

end

instance : DecidableEq (Yaml F) := fun v w => decidable_of_iff _ (v.same_iff w)

instance : DecidableEq (Document F) := fun d e =>
    decidable_of_iff _ (Document.ext_iff (x := d) (y := e)).symm

def ValueEq.structural : ValueEq F where
  eq := Yaml.same
  refl v := (v.same_iff v).mpr rfl
  symm h := (Yaml.same_iff _ _).mpr ((Yaml.same_iff _ _).mp h).symm
  trans h h' := (Yaml.same_iff _ _).mpr
    (((Yaml.same_iff _ _).mp h).trans ((Yaml.same_iff _ _).mp h'))
  string h := ((Yaml.same_iff _ _).mp h).symm
  mapping h := ⟨_, ((Yaml.same_iff _ _).mp h).symm, fun _ x hx => ⟨x, hx, (x.same_iff x).mpr rfl⟩⟩

end Structural

def marks : List Key := [field "superseded_by", field "superseded_at", field "reason"]

def settable : Yaml F → Bool
  | .string _ => true
  | .mapping m => marks.all fun k => (OrderedMap.get m k).isNone
  | _ => false

variable {m : Mapping F} {k : Key}

theorem get_setAside {actor time reason : Text} (hk : k ∉ marks) :
    OrderedMap.get ([("superseded_by", actor), ("superseded_at", time), ("reason", reason)].foldl
      (fun m p => OrderedMap.insert m (field p.1) (.string p.2)) m) k = OrderedMap.get m k := by
  simp only [marks, List.mem_cons, List.not_mem_nil, or_false, not_or] at hk
  simp only [List.foldl_cons, List.foldl_nil]
  rw [OrderedMap.get_insert_of_ne _ _ hk.2.2, OrderedMap.get_insert_of_ne _ _ hk.2.1,
    OrderedMap.get_insert_of_ne _ _ hk.1]

theorem not_mem_marks {x : Yaml F} (hm : settable (.mapping m) = true)
    (hx : OrderedMap.get m k = some x) :
    k ∉ marks := by
  intro hk
  have hnone := List.all_eq_true.mp hm k hk
  simp [hx] at hnone

theorem intact_setAside (E : ValueEq F) {v w : Yaml F} (actor time reason : Text)
    (hv : settable v = true) (h : E.eq v w = true) :
    E.Intact v (Document.setAside actor time reason w) := by
  refine .inr ⟨_, rfl, ?_⟩
  cases v with
  | mapping a =>
    obtain ⟨b, rfl, hb⟩ := E.mapping h
    intro k x hx
    rw [Document.entryOf, get_setAside (not_mem_marks hv hx)]
    exact hb k x hx
  | string t =>
    obtain rfl := E.string h
    intro k x hx
    simp only [ValueEq.ownFields, OrderedMap.get] at hx
    split at hx
    next hk =>
      cases hx
      subst hk
      refine ⟨.string t, ?_, E.refl _⟩
      rw [get_setAside (by decide)]
      exact OrderedMap.get_insert_self ..
    next => cases hx
  | _ => cases hv

namespace Document

def listed : Option (Yaml F) → Bool
  | none => true
  | some .null => true
  | some (.sequence _) => true
  | _ => false

variable {value : Option (Yaml F)}

theorem eventsOf_of_listed (h : listed value = true) :
    eventsOf value = itemsOf value := by
  match value, h with
  | none, _ | some .null, _ | some (.sequence _), _ => rfl

/-- Not a list under a tag, into which `list_mut` would push. -/
def untaggedList : Option (Yaml F) → Bool
  | some (.tagged _ v) => v.asSequence.isNone
  | _ => true

theorem untaggedList_of_listed (h : listed value = true) :
    untaggedList value = true := by
  match value, h with
  | none, _ | some .null, _ | some (.sequence _), _ => rfl

variable {v : Yaml F}

theorem mem_eventsOf (h : untaggedList value = true) (hv : v ∈ itemsOf value) : v ∈ eventsOf value := by
  match value, h with
  | some (.sequence _), _ => exact hv
  | some (.tagged _ _), h => simp_all [itemsOf, Yaml.asSequence, untaggedList]
  | some (.bool _), _ | some (.number _), _ | some (.string _), _ | some (.mapping _), _
  | some .null, _ | none, _ => cases hv

theorem get_listMut_self (d : Document F) (k : Key) (change : List (Yaml F) → List (Yaml F))
    (h : untaggedList (d.get k) = true) :
    (d.listMut k change).get k = some (.sequence (change (itemsOf (d.get k)))) := by
  simp only [listMut, get_set_self, Option.some.injEq]
  generalize change (itemsOf (d.get k)) = items
  split
  next v hv =>
    rw [hv] at h
    split
    next hs =>
      cases v with
      | tagged tag inner => simp_all [untaggedList, Yaml.asSequence]
      | _ => rfl
    next => rfl
  next => rfl

variable (E : ValueEq F)

theorem subset_inheritItems (eq : Yaml F → Yaml F → Bool) (mine previous : List (Yaml F)) :
    mine ⊆ inheritItems eq mine previous := by
  induction previous generalizing mine with
  | nil => exact List.Subset.refl _
  | cons event rest ih =>
    refine List.Subset.trans ?_ (ih _)
    dsimp only
    split
    · exact List.Subset.refl _
    · exact List.subset_append_left _ _

theorem mem_inheritItems {mine previous : List (Yaml F)} (hv : v ∈ previous) :
    ∃ w ∈ inheritItems E.eq mine previous, E.eq v w = true := by
  induction previous generalizing mine with
  | nil => cases hv
  | cons event rest ih =>
    rcases List.mem_cons.mp hv with rfl | hv
    · by_cases hmine : mine.any (fun item => E.eq item v) = true
      · obtain ⟨w, hw, hwv⟩ := List.any_eq_true.mp hmine
        refine ⟨w, ?_, E.symm hwv⟩
        rw [inheritItems, List.foldl_cons, if_pos hmine]
        exact subset_inheritItems _ _ _ hw
      · refine ⟨v, ?_, E.refl v⟩
        rw [inheritItems, List.foldl_cons, if_neg hmine]
        exact subset_inheritItems _ _ _ (by simp)
    · exact ih hv

variable {stored d : Document F} {k : Key}

theorem mem_inheritKey (hstored : listed (stored.get k) = true) (hd : untaggedList (d.get k) = true)
    (hv : v ∈ eventsOf (stored.get k)) :
    ∃ w ∈ itemsOf ((inheritKey E.eq stored d k).get k), E.eq v w = true := by
  rw [inheritKey]
  rcases hget : stored.get k with _ | y
  · rw [hget] at hv
    cases hv
  · rw [hget] at hv hstored
    cases y with
    | null => cases hv
    | sequence previous =>
      obtain ⟨w, hw, hvw⟩ := mem_inheritItems E hv
      refine ⟨w, ?_, hvw⟩
      rw [get_listMut_self _ _ _ hd]
      exact hw
    | bool | number | string | mapping | tagged => cases hstored

theorem untaggedList_inheritKey (eq : Yaml F → Yaml F → Bool) (hd : untaggedList (d.get k) = true) :
    untaggedList ((inheritKey eq stored d k).get k) = true := by
  rw [inheritKey]
  split
  · rw [get_listMut_self _ _ _ hd]
    rfl
  · exact hd

/- Each of the two lists is inherited on its own. -/
theorem get_inherit (eq : Yaml F → Yaml F → Bool) (d stored : Document F)
    (hk : k ∈ [field "verified", field "superseded_verifications"]) :
    ∃ d', d'.get k = d.get k ∧
      (d.inheritVerifications eq stored).get k = (inheritKey eq stored d' k).get k := by
  simp only [List.mem_cons, List.not_mem_nil, or_false] at hk
  rcases hk with rfl | rfl
  · exact ⟨d, rfl, get_inheritKey_of_ne _ _ _ (by decide)⟩
  · exact ⟨_, get_inheritKey_of_ne _ _ _ (by decide), rfl⟩

theorem mem_inherit (hk : k ∈ [field "verified", field "superseded_verifications"])
    (hstored : listed (stored.get k) = true) (hd : untaggedList (d.get k) = true)
    (hv : v ∈ eventsOf (stored.get k)) :
    ∃ w ∈ itemsOf ((d.inheritVerifications E.eq stored).get k), E.eq v w = true := by
  obtain ⟨d', hd', hget⟩ := get_inherit E.eq d stored hk
  rw [hget]
  exact mem_inheritKey E hstored (by rw [hd']; exact hd) hv

theorem untaggedList_inherit (eq : Yaml F → Yaml F → Bool)
    (hk : k ∈ [field "verified", field "superseded_verifications"])
    (hd : untaggedList (d.get k) = true) :
    untaggedList ((d.inheritVerifications eq stored).get k) = true := by
  obtain ⟨d', hd', hget⟩ := get_inherit eq d stored hk
  rw [hget]
  exact untaggedList_inheritKey eq (by rw [hd']; exact hd)

theorem eventsOf_quarantine (actor time reason : Text)
    (hd : untaggedList (d.get (field "superseded_verifications")) = true) :
    eventsOf ((d.quarantineVerifications actor time reason).1.get
        (field "superseded_verifications")) =
      itemsOf (d.get (field "superseded_verifications")) ++
        (eventsOf (d.get (field "verified"))).map (setAside actor time reason) := by
  have hget : ({ d with
      frontmatter := OrderedMap.remove d.frontmatter (field "verified") } : Document F).get
        (field "superseded_verifications") = d.get (field "superseded_verifications") :=
    OrderedMap.get_remove_of_ne _ (by decide)
  rw [quarantineVerifications, get_listMut_self _ _ _ (by rw [hget]; exact hd), hget]
  rfl

/-! ### Versions of one document -/

def events (d : Document F) : List (Yaml F) :=
  eventsOf (d.get (field "verified")) ++ eventsOf (d.get (field "superseded_verifications"))

end Document

inductive Revision (F : Type) where
  | edit (submitted : Document F) (actor time : Text)
  | upload (submitted : Document F) (actor time : Text)
  | verify (actor time : Text) (note : Option Text)
  | sendBack (actor time : Text) (note : Option Text)

namespace Revision

def isContribution : Revision F → Bool
  | edit .. => true
  | upload .. => true
  | _ => false

/- An edit is given the stored version, an upload is not, even over a path that is taken. -/
def revise (eq : Yaml F → Yaml F → Bool) (stored : Document F) :
    Revision F → Except Text (Document F)
  | edit d actor time => .ok (d.contributeEdit eq actor time (some stored)).1
  | upload d actor time => (d.contributeNew actor time).map Prod.fst
  | verify actor time note => .ok (stored.recordVerification actor time note)
  | sendBack actor time note => .ok (stored.sendBack actor time note)

open Document

/-- What a revision needs of the stored version, and an edit of its lists, to carry the record over. -/
def careful (stored : Document F) : Revision F → Bool
  | edit d _ _ =>
    listed (stored.get (field "verified")) &&
      listed (stored.get (field "superseded_verifications")) &&
      (eventsOf (stored.get (field "verified"))).all settable &&
      untaggedList (d.get (field "verified")) &&
      untaggedList (d.get (field "superseded_verifications"))
  | upload .. => stored.events.isEmpty
  | verify .. => listed (stored.get (field "verified"))
  | sendBack .. => true

def Step (eq : Yaml F → Yaml F → Bool) (s : Document F) (r : Revision F) (t : Document F) : Prop :=
  revise eq s r = .ok t

def CarefulStep (eq : Yaml F → Yaml F → Bool) (s : Document F) (r : Revision F) (t : Document F) :
    Prop :=
  r.careful s = true ∧ Step eq s r t

variable {s t : Document F} {r : Revision F}

theorem get_verified_of_contribution {eq : Yaml F → Yaml F → Bool} (hr : r.isContribution = true)
    (h : Step eq s r t) :
    t.get (field "verified") = none := by
  cases r with
  | edit d actor time =>
    obtain rfl := Except.ok.inj h
    rw [contributeEdit, get_set_of_ne _ _ (by decide), get_quarantine_verified]
  | upload d actor time =>
    rw [Step, revise] at h
    cases hnew : d.contributeNew actor time with
    | error e => rw [hnew] at h; cases h
    | ok r =>
      rw [hnew] at h
      obtain rfl := Except.ok.inj h
      rw [(contributeNew_ok hnew).2, get_quarantine_verified]
  | verify | sendBack => cases hr

variable (E : ValueEq F)

variable {actor time : Text} {v : Yaml F}

theorem intact_edit {d : Document F} (hcareful : (edit d actor time).careful s = true)
    (hv : v ∈ s.events) :
    ∃ w ∈ (d.contributeEdit E.eq actor time (some s)).1.events, E.Intact v w := by
  simp only [careful, Bool.and_eq_true, List.all_eq_true] at hcareful
  obtain ⟨⟨⟨⟨hlive, haside⟩, hset⟩, hdlive⟩, hdaside⟩ := hcareful
  have hresult : eventsOf ((d.contributeEdit E.eq actor time (some s)).1.get
      (field "superseded_verifications")) =
        itemsOf ((d.inheritVerifications E.eq s).get (field "superseded_verifications")) ++
          (eventsOf ((d.inheritVerifications E.eq s).get (field "verified"))).map
            (setAside actor time "edited") := by
    rw [contributeEdit, get_set_of_ne _ _ (by decide)]
    exact eventsOf_quarantine _ _ _ (untaggedList_inherit E.eq (by simp) hdaside)
  -- Both lists are carried into the submitted version; what is live there is set aside next.
  rcases List.mem_append.mp hv with hv | hv
  · obtain ⟨w, hw, hvw⟩ := mem_inherit E (by simp) hlive hdlive hv
    have hw := mem_eventsOf (untaggedList_inherit E.eq (by simp) hdlive) hw
    refine ⟨setAside actor time "edited" w, ?_, intact_setAside E _ _ _ (hset v hv) hvw⟩
    rw [events, hresult]
    exact List.mem_append_right _ (List.mem_append_right _ (List.mem_map_of_mem hw))
  · obtain ⟨w, hw, hvw⟩ := mem_inherit E (by simp) haside hdaside hv
    refine ⟨w, ?_, .inl hvw⟩
    rw [events, hresult]
    exact List.mem_append_right _ (List.mem_append_left _ hw)

theorem mem_events_verify {note : Option Text} (hlisted : listed (s.get (field "verified")) = true)
    (hv : v ∈ s.events) :
    v ∈ (s.recordVerification actor time note).events := by
  have hverified : eventsOf ((s.recordVerification actor time note).get (field "verified")) =
      itemsOf (s.get (field "verified")) ++ [event actor time note] := by
    rw [recordVerification, get_activateDraft_of_ne _ (by decide),
      get_listMut_self _ _ _ (untaggedList_of_listed hlisted)]
    rfl
  have haside : (s.recordVerification actor time note).get (field "superseded_verifications") =
      s.get (field "superseded_verifications") := by
    rw [recordVerification, get_activateDraft_of_ne _ (by decide), get_listMut_of_ne _ _ (by decide)]
  rw [events, hverified, haside, ← eventsOf_of_listed hlisted]
  rcases List.mem_append.mp hv with hv | hv
  · exact List.mem_append_left _ (List.mem_append_left _ hv)
  · exact List.mem_append_right _ hv

theorem events_sendBack (s : Document F) (actor time : Text) (note : Option Text) :
    (s.sendBack actor time note).events = s.events := by
  have hget (k : Key) (hreviews : k ≠ field "reviews") (hstatus : k ≠ field "status") :
      (s.sendBack actor time note).get k = s.get k := by
    rw [Document.sendBack, get_listMut_of_ne _ _ hreviews, get_set_of_ne _ _ hstatus]
  rw [events, events, hget _ (by decide) (by decide), hget _ (by decide) (by decide)]

/-- What a careful revision of the stored version keeps: every event of the record. -/
theorem intact_step (h : CarefulStep E.eq s r t) (hv : v ∈ s.events) : ∃ w ∈ t.events, E.Intact v w := by
  obtain ⟨hcareful, h⟩ := h
  cases r with
  | edit d actor time =>
    obtain rfl := Except.ok.inj h
    exact intact_edit E hcareful hv
  | upload d actor time =>
    rw [careful, List.isEmpty_iff] at hcareful
    rw [hcareful] at hv
    cases hv
  | verify actor time note =>
    obtain rfl := Except.ok.inj h
    exact ⟨v, mem_events_verify hcareful hv, .inl (E.refl v)⟩
  | sendBack actor time note =>
    obtain rfl := Except.ok.inj h
    rw [events_sendBack]
    exact ⟨v, hv, .inl (E.refl v)⟩

/-- A verification event of a stored version is intact in every later version that careful revisions
lead to; no contribution leaves anything verified. -/
theorem verification_record_survives {s t : Document F} {rs : List (Revision F)}
    (h : Run (CarefulStep E.eq) s rs t) :
    (∀ v ∈ s.events, ∃ w ∈ t.events, E.Intact v w) ∧
      ∀ s' r t', Step E.eq s' r t' → r.isContribution = true →
        t'.get (field "verified") = none := by
  refine ⟨?_, fun s' r t' hstep hr => get_verified_of_contribution hr hstep⟩
  refine h.invariant (P := fun t => ∀ v ∈ s.events, ∃ w ∈ t.events, E.Intact v w)
    (fun v hv => ⟨v, hv, .inl (E.refl v)⟩) ?_
  intro t r u ih hstep v hv
  obtain ⟨w, hw, hvw⟩ := ih v hv
  obtain ⟨x, hx, hwx⟩ := intact_step E hstep hw
  exact ⟨x, hx, hvw.trans E hwx⟩

def sampleTime : Text := "2026-09-07T10:00:00Z"

def freshDocument : Document Unit := sampleDocument [("title", "Failover")]

def verifiedDocument : Document Unit :=
  freshDocument.recordVerification "human:alice" sampleTime none

def singleVerified : Document Unit :=
  freshDocument.set (field "verified") (event "human:alice" sampleTime none)

def sampleRevisions : List (Revision Unit) :=
  [.edit freshDocument "human:bob" sampleTime, .sendBack "human:carol" sampleTime none,
    .verify "human:carol" sampleTime none, .edit freshDocument "agent:scribe" sampleTime]

theorem verification_record_survives_edits :
    ∃ t, Run (CarefulStep ValueEq.structural.eq) verifiedDocument sampleRevisions t ∧
      (∀ v ∈ verifiedDocument.events, ∃ w ∈ t.events, ValueEq.structural.Intact v w) ∧
      t.get (field "verified") = none := by
  have hrun : ∃ t, Run (CarefulStep ValueEq.structural.eq) verifiedDocument sampleRevisions t ∧
      t.get (field "verified") = none := by
    refine ⟨_, Run.cons_iff.mpr ⟨_, ⟨by decide +kernel, rfl⟩, Run.cons_iff.mpr ⟨_, ⟨by rfl, rfl⟩,
      Run.cons_iff.mpr ⟨_, ⟨by decide +kernel, rfl⟩, Run.cons_iff.mpr ⟨_, ⟨by decide +kernel, rfl⟩,
        .start _⟩⟩⟩⟩, by rfl⟩
  obtain ⟨t, h, hv⟩ := hrun
  exact ⟨t, h, (verification_record_survives ValueEq.structural h).1, hv⟩

/-- An upload over a verified document drops its record, and so does an edit of a single event. -/
theorem verification_record_dropped :
    (∃ t, Step ValueEq.structural.eq verifiedDocument
        (.upload freshDocument "human:bob" sampleTime) t ∧
      verifiedDocument.events.length = 1 ∧ t.events = []) ∧
    ∃ t, Step ValueEq.structural.eq singleVerified
        (.edit freshDocument "human:bob" sampleTime) t ∧
      singleVerified.events.length = 1 ∧ t.events = [] :=
  ⟨⟨_, rfl, by rfl, by rfl⟩, ⟨_, rfl, by rfl, by rfl⟩⟩

end Revision

end Pgokf.Documents
