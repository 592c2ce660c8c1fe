import ExtendDb.Migrations.Runner

/-!
# Histories of migrate runs

From an empty catalog, any number of binaries that carry the same table to different lengths run
`migrate`, each over the stores that exist by then, and each run may fail or stop at any call.
-/

namespace ExtendDb.Migrations

open List Bool Deployment Snapshot Function Runner

variable {r : Runner} {t : Table} {b : Backend} {d : Deployment} {snap : Snapshot}

/-! ## What the stores hold after a write -/

namespace Deployment

@[simp] theorem ids_writeVersion (version : Nat) (s : StoreRef) :
    (d.writeVersion version).ids s = d.ids s := rfl

@[simp] theorem ids_runBody (store : StoreRef) (id : Nat) (s : StoreRef) :
    (d.runBody t store id).ids s = d.ids s := rfl

theorem ids_insertRow (store row s) :
    (d.insertRow store row).ids s = if s = store then d.ids s ++ [row.id] else d.ids s := by
  by_cases hs : s = store
  · subst hs
    simp [ids, insertRow]
  · simp [ids, insertRow, hs]

@[simp] theorem ran_writeVersion (version : Nat) : (d.writeVersion version).ran = d.ran := rfl

@[simp] theorem ran_insertRow (store : StoreRef) (row : LedgerRow) :
    (d.insertRow store row).ran = d.ran := rfl

theorem toString_version_contains (version : Nat) :
    (toString version).toList.contains '.' = false := by
  have htext : (toString version).toList = Nat.toDigits 10 version := by
    simp
  rw [htext, ← not_eq_true, contains_iff_mem]
  intro hmem
  have hdigit := Nat.isDigit_of_mem_toDigits (by decide) (by decide) hmem
  exact absurd hdigit (by decide)

theorem dotted_writeVersion (version : Nat) :
    (d.writeVersion version).traces.dottedVersion = false := by
  simp only [writeVersion, CatalogTraces.dottedVersion, Option.any_some]
  exact toString_version_contains version

end Deployment

/-- The migration has a body for stores of the kind. -/
def Table.runsIn (t : Table) (id : Nat) (kind : StoreKind) : Bool :=
  (t.migration id).isApplicable && ((t.migration id).bodyIn kind).isSome

namespace Runner

/-! ## What a snapshot shows -/

theorem read_ok (h : r.read t b d = .ok snap) : (b.storeNames .catalog).length = 1 ∧
      snap = ⟨(r.stores t b).map fun store => (store, d.ledger store), d.traces⟩ := by
  unfold read at h
  split at h
  · cases h
  rename_i hone
  cases herror : b.readError with
  | some e =>
    rw [herror] at h
    cases h
  | none =>
    rw [herror] at h
    cases h
    exact ⟨not_not.mp hone, rfl⟩

def Lists (snap : Snapshot) (stores : List StoreRef) (d : Deployment) : Prop :=
  snap = ⟨stores.map fun store => (store, d.ledger store), d.traces⟩

theorem read_lists {name} (hname : b.storeNames .catalog = [name]) (herror : b.readError = none) :
    ∃ snap, r.read t b d = .ok snap ∧ Lists snap (r.stores t b) d :=
  ⟨_, by simp [read, hname, herror], rfl⟩

variable {stores : List StoreRef}

theorem Lists.hasRow_iff (h : Lists snap stores d) (s) (id) :
    snap.hasRow s id = true ↔ s ∈ stores ∧ id ∈ d.ids s := by
  subst h
  simp only [hasRow, any_map, any_eq_true, comp_apply, and_eq_true, decide_eq_true_eq, ids, mem_map]
  constructor
  · rintro ⟨store, hstore, rfl, row, hrow, hid⟩
    exact ⟨hstore, row, hrow, hid⟩
  · rintro ⟨hstore, row, hrow, hid⟩
    exact ⟨s, hstore, rfl, row, hrow, hid⟩

theorem Lists.mem_storesOf (h : Lists snap stores d) (s) (id) :
    s ∈ storesOf t snap id ↔ s ∈ stores ∧ s.kind ∈ (t.migration id).storeKinds := by
  subst h
  simp only [storesOf, instances, mem_flatMap, mem_filter, decide_eq_true_eq]
  constructor
  · rintro ⟨kind, hkind, hs, rfl⟩
    exact ⟨by simpa using hs, hkind⟩
  · rintro ⟨hs, hkind⟩
    exact ⟨s.kind, hkind, by simpa using hs, rfl⟩

theorem Lists.storesOf_nodup (h : Lists snap stores d) (hnodup : stores.Nodup) (id) :
    (storesOf t snap id).Nodup := by
  subst h
  have hinstances : ∀ kind, (instances
      ⟨stores.map fun store => (store, d.ledger store), d.traces⟩ kind).Nodup := by
    intro kind
    refine .filter _ ?_
    have hfst : (stores.map fun store => (store, d.ledger store)).map Prod.fst = stores := by
      simp [comp_def]
    rw [hfst]
    exact hnodup
  refine nodup_flatMap.mpr ⟨fun kind _ => hinstances kind, ?_⟩
  refine (t.migration id).storeKinds_nodup.imp ?_
  intro k k' hne s hs hs'
  simp only [instances, mem_filter, decide_eq_true_eq] at hs hs'
  exact hne (hs.2.symm.trans hs'.2)

/-! ## The plan, store by store -/

theorem mem_planned {target reconverge step} : step ∈ r.planned t snap target reconverge ↔
      (1 ≤ step.id ∧ step.id ≤ r.latest ∧ step.id ≤ target) ∧
      step.store ∈ storesOf t snap step.id ∧
      (reruns t reconverge step.id = true ∨ snap.hasRow step.store step.id = false) ∧
      step.kind = (t.migration step.id).kind ∧
      step.recorded = snap.hasRow step.store step.id := by
  obtain ⟨id, store, kind, recorded⟩ := step
  simp only [planned, all, mem_flatMap, mem_filter, mem_range'_1, mem_map,
    decide_eq_true_eq, or_eq_true, not_eq_true', Planned.mk.injEq]
  constructor
  · rintro ⟨id', ⟨⟨hpos, hlatest⟩, htarget⟩, store', ⟨hstore, hcond⟩, rfl, rfl, rfl, rfl⟩
    exact ⟨⟨hpos, by omega, htarget⟩, hstore, hcond, rfl, rfl⟩
  · rintro ⟨⟨hpos, hlatest, htarget⟩, hstore, hcond, rfl, rfl⟩
    exact ⟨id, ⟨⟨hpos, by omega⟩, htarget⟩, store, ⟨hstore, hcond⟩, rfl, rfl, rfl, rfl⟩

def idsIn (steps : List Planned) (s : StoreRef) : List Nat :=
  (steps.filter fun step => step.store = s).map (·.id)

theorem idsIn_cons (step steps s) :
    idsIn (step :: steps) s = if step.store = s then step.id :: idsIn steps s else idsIn steps s := by
  by_cases h : step.store = s <;> simp [idsIn, h]

theorem filter_eq_singleton (hnodup : stores.Nodup) (s) :
    stores.filter (fun store => store = s) = if s ∈ stores then [s] else [] := by
  induction stores with
  | nil => simp
  | cons x xs ih =>
    obtain ⟨hx, hxs⟩ := nodup_cons.mp hnodup
    by_cases hs : x = s
    · subst hs
      simp [ih hxs, hx]
    · simp [hs, ih hxs, Ne.symm hs]

theorem all_filter_le (r : Runner) (target) :
    r.all.filter (fun id => id ≤ target) = range' 1 (min r.latest target) := by
  unfold all
  rcases Nat.le_total r.latest target with hle | hle
  · rw [Nat.min_eq_left hle, filter_eq_self]
    intro id hid
    have := (mem_range'_1.mp hid).2
    exact decide_eq_true (by omega)
  rw [Nat.min_eq_right hle]
  obtain ⟨k, hk⟩ := Nat.exists_eq_add_of_le hle
  rw [hk, ← range'_append_1, filter_append]
  have hlow : (range' 1 target).filter (fun id => decide (id ≤ target)) = .range' 1 target := by
    rw [filter_eq_self]
    intro id hid
    have := (mem_range'_1.mp hid).2
    exact decide_eq_true (by omega)
  have hhigh : (range' (1 + target) k).filter (fun id => decide (id ≤ target)) = [] := by
    rw [filter_eq_nil_iff]
    intro id hid
    have := (mem_range'_1.mp hid).1
    rw [decide_eq_true_eq]
    omega
  rw [hlow, hhigh, append_nil]

theorem idsIn_append (xs ys s) : idsIn (xs ++ ys) s = idsIn xs s ++ idsIn ys s := by
  simp [idsIn]

/-- The steps of a plan in one store: the missing ids of its kind, and those a reconverge runs
again, in ascending order. -/
theorem idsIn_planned (h : Lists snap stores d) (hnodup : stores.Nodup) (target : Nat) (reconverge)
    {s} (hs : s ∈ stores) :
    idsIn (r.planned t snap target reconverge) s =
      (t.concerning s.kind (min r.latest target)).filter
        (fun id => reruns t reconverge id || !(d.ids s).contains id) := by
  have hhas : ∀ id, snap.hasRow s id = (d.ids s).contains id := by
    intro id
    rw [Bool.eq_iff_iff, h.hasRow_iff, contains_iff_mem]
    exact ⟨fun hrow => hrow.2, fun hrow => ⟨hs, hrow⟩⟩
  -- in each id's part of the plan the store occurs at most once
  have hpart : ∀ id, idsIn (((storesOf t snap id).filter
      fun store => reruns t reconverge id || !snap.hasRow store id).map fun store =>
        ({ id, store, kind := (t.migration id).kind, recorded := snap.hasRow store id } : Planned)) s =
      if (t.migration id).storeKinds.contains s.kind &&
        (reruns t reconverge id || !(d.ids s).contains id) then [id] else [] := by
    intro id
    simp only [idsIn, filter_map, comp_def, filter_filter]
    have hcomm : (storesOf t snap id).filter (fun store => decide (store = s) &&
        (reruns t reconverge id || !snap.hasRow store id)) =
        ((storesOf t snap id).filter fun store => store = s).filter
          (fun store => reruns t reconverge id || !snap.hasRow store id) := by
      rw [filter_filter]
      exact filter_congr fun store _ => and_comm _ _
    rw [hcomm, filter_eq_singleton (h.storesOf_nodup hnodup id)]
    have hmem : s ∈ storesOf t snap id ↔ s.kind ∈ (t.migration id).storeKinds := by
      rw [h.mem_storesOf]
      exact ⟨fun hin => hin.2, fun hin => ⟨hs, hin⟩⟩
    by_cases hkind : s.kind ∈ (t.migration id).storeKinds
    · have hcontains : (t.migration id).storeKinds.contains s.kind = true := by simpa using hkind
      rw [if_pos (hmem.mpr hkind), filter_cons, hhas, hcontains, Bool.true_and]
      split <;> rfl
    · rw [if_neg fun hin => hkind (hmem.mp hin)]
      simp [hkind]
  have hflat : ∀ ids : List Nat, idsIn (ids.flatMap fun id =>
      ((storesOf t snap id).filter
        fun store => reruns t reconverge id || !snap.hasRow store id).map fun store =>
          ({ id, store, kind := (t.migration id).kind, recorded := snap.hasRow store id } :
            Planned)) s =
      ids.filter (fun id => (t.migration id).storeKinds.contains s.kind &&
        (reruns t reconverge id || !(d.ids s).contains id)) := by
    intro ids
    induction ids with
    | nil => rfl
    | cons id ids ih =>
      rw [flatMap_cons, idsIn_append, hpart, ih, filter_cons]
      split <;> rfl
  rw [planned, all_filter_le, hflat, Table.concerning, filter_filter]
  exact filter_congr fun id _ => and_comm _ _

theorem idsIn_planned_of_not_mem (h : Lists snap stores d) (target) (reconverge) {s}
    (hs : s ∉ stores) :
    idsIn (r.planned t snap target reconverge) s = [] := by
  unfold idsIn
  rw [map_eq_nil_iff, filter_eq_nil_iff]
  intro step hstep hstore
  have hin := ((h.mem_storesOf _ _).mp (mem_planned.mp hstep).2.1).1
  rw [decide_eq_true_eq.mp hstore] at hin
  exact hs hin

/-! ## A run, step by step -/

/-- The version row is written after a step outside the catalog that is the last of its id. -/
def VersionDue (step : Planned) (steps : List Planned) : Prop :=
  steps.head?.all (fun next => next.id ≠ step.id) = true ∧ step.store.kind ≠ .catalog

/-- A round of a run changes nothing, or commits its step and then may write the version row. -/
theorem applySteps_cons (i step steps p) :
    (∃ e, r.applySteps t b i (step :: steps) p = (.error e, p)) ∨
    ∃ checksum notes appliedAt q, t.recordChecksum step.id step.store.kind = some checksum ∧
      (∀ e, b.apply i ≠ .fails e) ∧ q.applied.length ≤ p.applied.length + 1 ∧
      (q.deployment = r.commit t p step checksum notes appliedAt ∨ VersionDue step steps ∧
        ∃ version, q.deployment =
          (r.commit t p step checksum notes appliedAt).writeVersion version) ∧
      ((∃ e, r.applySteps t b i (step :: steps) p = (.error e, q) ∧
          (b.writeCatalogVersion i = .written → q.applied = p.applied)) ∨
        r.applySteps t b i (step :: steps) p = r.applySteps t b (i + 1) steps q ∧
        q.snap = r.after t p.snap step checksum ∧ (VersionDue step steps →
          q.snap.catalogRows ≠ [] → q.deployment.traces.dottedVersion = false)) := by
  rw [applySteps, applyStep]
  cases hsum : t.recordChecksum step.id step.store.kind with
  | none => exact .inl ⟨_, rfl⟩
  | some checksum =>
    cases b.apply i with
    | fails e => exact .inl ⟨e, rfl⟩
    | commitsUnanswered notes appliedAt e =>
      exact .inr ⟨checksum, notes, appliedAt, _, rfl, by simp, by simp, .inl rfl,
        .inl ⟨e, rfl, fun _ => rfl⟩⟩
    | commits notes appliedAt =>
      refine .inr ⟨checksum, notes, appliedAt, ?_⟩
      simp only [writeVersionAfter, and_eq_true, decide_eq_true_eq]
      by_cases hdue : VersionDue step steps
      · rw [if_pos (show _ ∧ _ from hdue)]
        cases hversion : r.versionOf t (r.after t p.snap step checksum) with
        | none =>
          refine ⟨_, trivial, by simp, by simp, .inl rfl, .inr ⟨rfl, rfl, fun _ hrows => ?_⟩⟩
          simp [versionOf, hrows] at hversion
        | some version =>
          cases b.writeCatalogVersion i with
          | fails e => exact ⟨_, trivial, by simp, by simp, .inl rfl, .inl ⟨e, rfl, by simp⟩⟩
          | writtenUnanswered e =>
            exact ⟨_, trivial, by simp, by simp, .inr ⟨hdue, version, rfl⟩, .inl ⟨e, rfl, by simp⟩⟩
          | written =>
            exact ⟨_, trivial, by simp, by simp, .inr ⟨hdue, version, rfl⟩,
              .inr ⟨rfl, rfl, fun _ _ => dotted_writeVersion version⟩⟩
      · rw [if_neg (show ¬(_ ∧ _) from hdue)]
        exact ⟨_, trivial, by simp, by simp, .inl rfl, .inr ⟨rfl, rfl, fun h => absurd h hdue⟩⟩

/-- What holds of the stores and the steps ahead, and is kept by every commit and every write of
the version row, holds where a run stops; after a run that applied everything no step is ahead. -/
theorem applySteps_keeps {I : Nat → Deployment → List Planned → Prop}
    (hcommit : ∀ i (p : Progress) step steps checksum notes appliedAt,
      (∀ e, b.apply i ≠ .fails e) → t.recordChecksum step.id step.store.kind = some checksum →
      I i p.deployment (step :: steps) →
      I (i + 1) (r.commit t p step checksum notes appliedAt) steps)
    (hversion : ∀ i d d' step steps version, VersionDue step steps → I i d (step :: steps) →
      I (i + 1) d' steps → I (i + 1) (d'.writeVersion version) steps) (i) (steps p)
    (h : I i p.deployment steps) :
    ∃ j ahead, I j (r.applySteps t b i steps p).2.deployment ahead ∧
      ((r.applySteps t b i steps p).1 = .ok () → ahead = []) := by
  induction steps generalizing i p with
  | nil => exact ⟨i, [], h, fun _ => rfl⟩
  | cons step steps ih =>
    rcases applySteps_cons (r := r) (t := t) (b := b) i step steps p with
      ⟨e, hrun⟩ | ⟨checksum, notes, appliedAt, q, hsum, happly, -, hq, hrun⟩
    · rw [hrun]
      exact ⟨i, _, h, fun hok => nomatch hok⟩
    · have hnext := hcommit i p step steps checksum notes appliedAt happly hsum h
      have hkept : I (i + 1) q.deployment steps := by
        rcases hq with hq | ⟨hdue, version, hq⟩ <;> rw [hq]
        · exact hnext
        · exact hversion i _ _ step steps version hdue h hnext
      rcases hrun with ⟨e, hrun, -⟩ | ⟨hrun, -⟩ <;> rw [hrun]
      · exact ⟨_, steps, hkept, fun hok => nomatch hok⟩
      · exact ih (i + 1) q hkept

theorem run_cases (target) (reconverge d) : ((r.run t b target reconverge d).2 = d ∧
      ((r.run t b target reconverge d).1.isOk = true → ∃ snap, r.read t b d = .ok snap ∧
        r.planned t snap target reconverge = [])) ∨
    ∃ snap, r.read t b d = .ok snap ∧ (r.run t b target reconverge d).2 =
        (r.applySteps t b 0 (r.planned t snap target reconverge) ⟨snap, d, []⟩).2.deployment ∧
      ((r.run t b target reconverge d).1.isOk = true →
        (r.applySteps t b 0 (r.planned t snap target reconverge) ⟨snap, d, []⟩).1 = .ok ()) := by
  unfold run
  cases hread : r.read t b d with
  | error e => exact .inl ⟨rfl, fun h => nomatch h⟩
  | ok snap =>
    simp only
    cases r.admission t snap target reconverge with
    | error e => exact .inl ⟨rfl, fun h => nomatch h⟩
    | ok skipped =>
      simp only
      by_cases hempty : (r.planned t snap target reconverge).isEmpty = true
      · rw [if_pos hempty]
        exact .inl ⟨rfl, fun _ => ⟨snap, rfl, isEmpty_iff.mp hempty⟩⟩
      rw [if_neg hempty]
      cases detectBefore t b (r.planned t snap target reconverge) with
      | error e => exact .inl ⟨rfl, fun h => nomatch h⟩
      | ok items =>
        dsimp only
        by_cases hitems : (!items.isEmpty) = true
        · left
          rw [if_pos hitems]
          exact ⟨rfl, fun h => nomatch h⟩
        rw [if_neg hitems]
        cases b.beforeFirstWrite (r.versionOf t snap) target with
        | error e => exact .inl ⟨rfl, fun h => nomatch h⟩
        | ok notes =>
          refine .inr ⟨snap, rfl, rfl, fun hok => ?_⟩
          simp only [report] at hok
          cases hres : (r.applySteps t b 0 (r.planned t snap target reconverge)
              ⟨snap, d, []⟩).1 with
          | ok u => rfl
          | error e =>
            rw [hres] at hok
            simp only at hok
            split at hok <;> cases hok

/-! ## What every commit of a migrate run keeps -/

section

variable {p : Progress} {step : Planned} {checksum : String} {notes : List String}
  {appliedAt : String}

theorem commit_ids (hrec : step.recorded = false) (s) :
    (r.commit t p step checksum notes appliedAt).ids s =
      if s = step.store then p.deployment.ids s ++ [step.id] else p.deployment.ids s := by
  unfold commit
  simp only [hrec, false_eq_true, if_false]
  split <;> split <;> simp [ids_insertRow, rowOf]

theorem bodyOf_isSome : (bodyOf t step).2.isSome = t.runsIn step.id step.store.kind := by
  unfold bodyOf Table.runsIn
  split <;> simp_all

theorem commit_ran : (r.commit t p step checksum notes appliedAt).ran =
      if t.runsIn step.id step.store.kind then (step.store, step.id) :: p.deployment.ran
      else p.deployment.ran := by
  rw [← bodyOf_isSome]
  unfold commit
  split <;> split <;> split <;> rfl

theorem commit_ledger (s) {row} (hrow : row ∈ (r.commit t p step checksum notes appliedAt).ledger s) :
    row ∈ p.deployment.ledger s ∨ s = step.store ∧ row.id = step.id ∧ row.checksum = checksum := by
  have hinsert : ∀ d : Deployment, d.ledger = p.deployment.ledger →
      row ∈ (d.insertRow step.store { r.rowOf t step checksum with
        notes := "\n".intercalate notes, appliedAt }).ledger s →
      row ∈ p.deployment.ledger s ∨
        s = step.store ∧ row.id = step.id ∧ row.checksum = checksum := by
    intro d hd hmem
    by_cases hs : s = step.store
    · subst hs
      simp only [insertRow, update_self, hd, mem_append, mem_singleton] at hmem
      rcases hmem with hmem | rfl
      · exact .inl hmem
      · exact .inr ⟨rfl, rfl, rfl⟩
    · simp only [insertRow, update_of_ne hs, hd] at hmem
      exact .inl hmem
  unfold commit at hrow
  cases hrec : step.recorded with
  | true =>
    left
    split at hrow <;> split at hrow <;> exact hrow
  | false =>
    simp only [hrec, false_eq_true, if_false] at hrow
    split at hrow <;> split at hrow <;> exact hinsert _ rfl hrow

theorem commit_marker : (r.commit t p step checksum notes appliedAt).traces.resourceTagMarker =
      if (bodyOf t step).2.isSome then
        p.deployment.traces.resourceTagMarker && !t.deletesMarker step.id step.store.kind
      else p.deployment.traces.resourceTagMarker := by
  unfold commit
  split <;> split <;> split <;> rfl

theorem commit_undotted (h : p.deployment.traces.dottedVersion = false) :
    (r.commit t p step checksum notes appliedAt).traces.dottedVersion = false := by
  unfold commit
  split_ifs <;> first | exact dotted_writeVersion _ | exact h

end

end Runner

/-- What holds of the stores between any two steps of any run. -/
structure Sound (t : Table) (d : Deployment) : Prop where
  ascending : ∀ s, ∃ n, d.ids s <+: t.concerning s.kind n
  checksums : ∀ s, ∀ row ∈ d.ledger s, t.recordChecksum row.id s.kind = some row.checksum
  marker : d.traces.resourceTagMarker = false
  undotted : d.traces.dottedVersion = false
  once : d.ran.Nodup
  ran_iff : ∀ s id, (s, id) ∈ d.ran ↔ id ∈ d.ids s ∧ t.runsIn id s.kind = true

structure OnTheWay (t : Table) (total : StoreRef → List Nat) (d : Deployment)
    (ahead : List Planned) : Prop where
  rest : ∀ s, d.ids s ++ idsIn ahead s = total s
  unrecorded : ∀ step ∈ ahead, step.recorded = false
  sound : Sound t d

theorem Sound.empty : Sound t .empty where
  ascending _ := ⟨0, nil_prefix⟩
  checksums _ _ h := nomatch h
  marker := rfl
  undotted := rfl
  once := nodup_nil
  ran_iff _ _ := by simp [Deployment.empty, Deployment.ids]

theorem Sound.writeVersion (h : Sound t d) (version) : Sound t (d.writeVersion version) where
  ascending := h.ascending
  checksums := h.checksums
  marker := h.marker
  undotted := dotted_writeVersion version
  once := h.once
  ran_iff := h.ran_iff

theorem OnTheWay.commit {total p step steps checksum notes appliedAt}
    (htotal : ∀ s, ∃ n, total s <+: t.concerning s.kind n)
    (h : OnTheWay t total p.deployment (step :: steps))
    (hsum : t.recordChecksum step.id step.store.kind = some checksum) :
    OnTheWay t total (r.commit t p step checksum notes appliedAt) steps := by
  have hrec : step.recorded = false := h.unrecorded step (.head _)
  have hrest : ∀ s, (r.commit t p step checksum notes appliedAt).ids s ++ idsIn steps s =
      total s := by
    intro s
    rw [← h.rest s, commit_ids hrec, idsIn_cons]
    by_cases hs : s = step.store
    · rw [if_pos hs, if_pos hs.symm, append_assoc, singleton_append]
    · rw [if_neg hs, if_neg (Ne.symm hs)]
  -- the store has no row for the id yet, since the ids of its kind are distinct
  have hnew : step.id ∉ p.deployment.ids step.store := by
    obtain ⟨n, hn⟩ := htotal step.store
    have hnodup := (t.concerning_nodup step.store.kind n).sublist hn.sublist
    rw [← h.rest, idsIn_cons, if_pos rfl, nodup_append] at hnodup
    exact fun hmem => hnodup.2.2 _ hmem _ (.head _) rfl
  refine ⟨hrest, fun s hs => h.unrecorded s (.tail _ hs), ?_⟩
  constructor
  · intro s
    obtain ⟨n, hn⟩ := htotal s
    exact ⟨n, (hrest s ▸ prefix_append _ _).trans hn⟩
  · intro s row hrow
    rcases commit_ledger s hrow with hrow | ⟨rfl, hid, hchecksum⟩
    · exact h.sound.checksums s row hrow
    · rw [hid, hchecksum, hsum]
  · simp [commit_marker, h.sound.marker]
  · exact commit_undotted h.sound.undotted
  · rw [commit_ran]
    split
    · exact nodup_cons.mpr ⟨fun hmem => hnew ((h.sound.ran_iff _ _).mp hmem).1, h.sound.once⟩
    · exact h.sound.once
  · intro s id
    rw [commit_ids hrec, commit_ran]
    have hold := h.sound.ran_iff s id
    by_cases hs : s = step.store
    · subst hs
      rw [if_pos rfl, mem_append, mem_singleton, or_and_right, ← hold]
      split
      · rename_i hruns
        rw [mem_cons, Prod.mk.injEq, and_iff_right rfl, Or.comm]
        exact or_congr_right ⟨fun hid => ⟨hid, hid ▸ hruns⟩, And.left⟩
      · rename_i hruns
        refine (or_iff_left ?_).symm
        rintro ⟨rfl, hid⟩
        exact hruns hid
    · have hne : (s, id) ≠ (step.store, step.id) := fun heq => hs (congrArg Prod.fst heq)
      rw [if_neg hs, ← hold]
      split
      · rw [mem_cons, or_iff_right hne]
      · rfl

def Backend.NamesNodup (b : Backend) : Prop := ∀ kind, (b.storeNames kind).Nodup

theorem Runner.stores_nodup (hb : b.NamesNodup) : (r.stores t b).Nodup := by
  have hnames : ∀ kind, (((b.storeNames kind).insertionSort (· ≤ ·)).map fun name =>
      (⟨kind, name⟩ : StoreRef)).Nodup := by
    intro kind
    refine .map (fun x y hxy => ?_) ?_
    · cases hxy
      rfl
    · exact (perm_insertionSort _ _).nodup_iff.mpr (hb kind)
  refine nodup_flatMap.mpr ⟨fun kind _ => hnames kind, ?_⟩
  refine (List.Nodup.filter _ (by decide : [StoreKind.catalog, .data, .account].Nodup)).imp ?_
  intro k k' hne s hs hs'
  obtain ⟨x, -, rfl⟩ := mem_map.mp hs
  obtain ⟨y, -, heq⟩ := mem_map.mp hs'
  exact hne (congrArg StoreRef.kind heq).symm

/-- A migrate run keeps the stores sound, and one that returns `Ok` leaves every store it saw with
a row for every id of the binary that concerns it. -/
theorem Sound.migrate (h : Sound t d) (hb : b.NamesNodup) : Sound t (r.migrate t b d).2 ∧
      ((r.migrate t b d).1.isOk = true → ∀ s ∈ r.stores t b, ∀ id ∈ t.concerning s.kind r.latest,
        id ∈ (r.migrate t b d).2.ids s) := by
  rcases run_cases (r := r) (t := t) (b := b) r.latest false d with
    ⟨hsame, hnothing⟩ | ⟨snap, hread, hstores, hok⟩
  · unfold Runner.migrate
    rw [hsame]
    refine ⟨h, fun hisOk s hs id hid => ?_⟩
    obtain ⟨snap, hread, hplan⟩ := hnothing hisOk
    have hlists : Runner.Lists snap (r.stores t b) d := (read_ok hread).2
    have hids := idsIn_planned (r := r) (t := t) hlists (stores_nodup hb) r.latest
      false hs
    rw [hplan, Nat.min_self] at hids
    have hnot := filter_eq_nil_iff.mp hids.symm id hid
    simpa [reruns] using hnot
  · have hlists : Runner.Lists snap (r.stores t b) d := (read_ok hread).2
    have hnodup := stores_nodup (r := r) (t := t) hb
    have hplan : ∀ s ∈ r.stores t b, idsIn (r.planned t snap r.latest false) s =
        (t.concerning s.kind r.latest).filter (fun id => !(d.ids s).contains id) := by
      intro s hs
      rw [idsIn_planned hlists hnodup _ _ hs, Nat.min_self]
      exact filter_congr fun id _ => by simp [reruns]
    have htotal : ∀ s, ∃ n, d.ids s ++ idsIn (r.planned t snap r.latest false) s <+:
        t.concerning s.kind n := by
      intro s
      obtain ⟨n, hn⟩ := h.ascending s
      by_cases hs : s ∈ r.stores t b
      · rw [hplan s hs]
        exact ⟨max n r.latest, t.resume_isPrefix hn r.latest⟩
      · rw [idsIn_planned_of_not_mem hlists _ _ hs, append_nil]
        exact ⟨n, hn⟩
    have hstart : OnTheWay t (fun s => d.ids s ++ idsIn (r.planned t snap r.latest false) s) d
        (r.planned t snap r.latest false) := by
      refine ⟨fun _ => rfl, fun step hstep => ?_, h⟩
      obtain ⟨-, -, hcond, -, hrec⟩ := mem_planned.mp hstep
      rw [hrec]
      exact hcond.resolve_left (by simp [reruns])
    obtain ⟨-, ahead, hway, hahead⟩ := applySteps_keeps (r := r) (b := b)
      (I := fun _ => OnTheWay t _)
      (fun _ p step steps checksum notes appliedAt _ hsum hI => hI.commit htotal hsum)
      (fun _ _ d' _ steps version _ _ hI =>
        ⟨hI.rest, hI.unrecorded, hI.sound.writeVersion version⟩)
      0 (r.planned t snap r.latest false) ⟨snap, d, []⟩ hstart
    unfold Runner.migrate
    rw [hstores]
    refine ⟨hway.sound, fun hisOk s hs id hid => ?_⟩
    have hrest := hway.rest s
    rw [hahead (hok hisOk), hplan s hs] at hrest
    simp only [idsIn, filter_nil, map_nil, append_nil] at hrest
    rw [hrest, mem_append, mem_filter]
    by_cases hin : id ∈ d.ids s
    · exact .inl hin
    · exact .inr ⟨hid, by simpa using hin⟩

/-! ## The status -/

theorem Runner.stores_catalog {name} (hname : b.storeNames .catalog = [name]) :
    ∃ others, r.stores t b = ⟨.catalog, name⟩ :: others := by
  have hkinds : ∃ kinds, r.readKinds t = .catalog :: kinds :=
    ⟨_, filter_cons_of_pos (by simp)⟩
  obtain ⟨kinds, hkinds⟩ := hkinds
  refine ⟨kinds.flatMap fun kind =>
    ((b.storeNames kind).insertionSort (· ≤ ·)).map fun name => ⟨kind, name⟩, ?_⟩
  rw [stores, hkinds, flatMap_cons, hname]
  rfl

theorem Runner.Lists.catalogRows_eq {stores others name} (h : Lists snap stores d)
    (hstores : stores = ⟨.catalog, name⟩ :: others) :
    snap.catalogRows = d.ledger ⟨.catalog, name⟩ := by
  rw [h, hstores]
  rfl

theorem Runner.Lists.catalogRows_ne_nil {stores others name id} (h : Lists snap stores d)
    (hstores : stores = ⟨.catalog, name⟩ :: others) (hid : id ∈ d.ids ⟨.catalog, name⟩) :
    snap.catalogRows ≠ [] := by
  rw [h.catalogRows_eq hstores]
  intro hnil
  rw [ids, hnil] at hid
  cases hid

theorem Snapshot.initialized_of_rows (h : snap.catalogRows ≠ []) : snap.initialized = true := by
  simp [initialized, h]

theorem Runner.unknown_eq_nil_iff :
    r.unknown snap = [] ↔ ∀ row ∈ snap.catalogRows, row.id ≤ r.latest := by
  unfold unknown
  simp

theorem Runner.planned_eq_nil_iff (hlists : Lists snap (r.stores t b) d) :
    r.planned t snap r.latest false = [] ↔
      ∀ s ∈ r.stores t b, ∀ id ∈ t.concerning s.kind r.latest, id ∈ d.ids s := by
  constructor
  · intro hnil s hs id hid
    obtain ⟨⟨hpos, hle⟩, hkind⟩ := t.mem_concerning.mp hid
    by_contra hnot
    have hrow : snap.hasRow s id = false := by
      rw [← not_eq_true, hlists.hasRow_iff]
      exact fun hin => hnot hin.2
    have hmem : (⟨id, s, (t.migration id).kind, false⟩ : Planned) ∈
        r.planned t snap r.latest false :=
      mem_planned.mpr ⟨⟨hpos, hle, hle⟩, (hlists.mem_storesOf s id).mpr ⟨hs, hkind⟩,
        .inr hrow, rfl, hrow.symm⟩
    rw [hnil] at hmem
    cases hmem
  · intro hall
    rw [eq_nil_iff_forall_not_mem]
    intro step hstep
    obtain ⟨⟨hpos, hle, -⟩, hstore, hcond, -, -⟩ := mem_planned.mp hstep
    obtain ⟨hs, hkind⟩ := (hlists.mem_storesOf _ _).mp hstore
    have hid := hall step.store hs step.id (t.mem_concerning.mpr ⟨⟨hpos, hle⟩, hkind⟩)
    have hrow := (hlists.hasRow_iff step.store step.id).mpr ⟨hs, hid⟩
    rcases hcond with hcond | hcond
    · simp [reruns] at hcond
    · rw [hcond] at hrow
      cases hrow

theorem Runner.changed_eq_changed {status} (h : r.changed t snap = some status) :
    ∃ id storeName recorded expected, status = .changed id storeName recorded expected := by
  obtain ⟨⟨store, row⟩, -, hfound⟩ := exists_of_findSome?_eq_some h
  simp only at hfound
  split at hfound
  · cases hfound
    exact ⟨_, _, _, _, rfl⟩
  · cases hfound

theorem Runner.forbidding_ne_current {version} :
    r.forbidding t snap false ≠ some (.current version) := by
  intro hforbid
  unfold forbidding at hforbid
  split at hforbid
  · rename_i changed hchanged
    cases hforbid
    obtain ⟨id, storeName, recorded, expected, heq⟩ := changed_eq_changed hchanged
    cases heq
  · split at hforbid
    · cases hforbid
    · split at hforbid <;> cases hforbid

theorem Sound.forbidding_eq_none (h : Sound t d) (hread : r.read t b d = .ok snap)
    (hknown : ∀ row ∈ snap.catalogRows, row.id ≤ r.latest) : r.forbidding t snap false = none := by
  have hlists := (read_ok hread).2
  have hchanged : r.changed t snap = none := by
    unfold changed
    rw [findSome?_eq_none_iff]
    rintro ⟨store, row⟩ hmem
    obtain ⟨l, hl, hrow⟩ := mem_flatMap.mp hmem
    rw [hlists] at hl
    obtain ⟨s, -, rfl⟩ := mem_map.mp hl
    obtain ⟨row', hrow', heq⟩ := mem_map.mp hrow
    cases heq
    have haccepted := t.recorded_mem_accepted (h.checksums _ _ hrow')
    simp [haccepted]
  have htrace : olderReleaseTrace snap = none := by
    have htraces : snap.traces = d.traces := by rw [hlists]
    unfold olderReleaseTrace
    rw [htraces, h.undotted, h.marker]
    simp
  have hunknown := unknown_eq_nil_iff.mpr hknown
  simp [forbidding, hchanged, htrace, hunknown]

/-- The status is `Current` exactly when no store lacks a row and the catalog has no later id. -/
theorem Sound.status_current_iff (h : Sound t d) (hread : r.read t b d = .ok snap) :
    (∃ version, r.statusOf t b snap = .ok (.current version)) ↔
      (∀ s ∈ r.stores t b, ∀ id ∈ t.concerning s.kind r.latest, id ∈ d.ids s) ∧
        ∀ row ∈ snap.catalogRows, row.id ≤ r.latest := by
  have hlists : Lists snap (r.stores t b) d := (read_ok hread).2
  constructor
  · rintro ⟨version, hstatus⟩
    unfold statusOf at hstatus
    split at hstatus
    · cases hstatus
    · split at hstatus
      · rename_i status hforbid
        cases hstatus
        exact absurd hforbid forbidding_ne_current
      · simp only at hstatus
        split at hstatus
        · cases hstatus
        · split at hstatus
          · cases hstatus
          · split at hstatus
            · cases hstatus
            · rename_i hsteps
              split at hstatus
              · cases hstatus
              · rename_i hunk
                exact ⟨(planned_eq_nil_iff hlists).mp (by simpa using hsteps),
                  unknown_eq_nil_iff.mp (by simpa using hunk)⟩
  · rintro ⟨hall, hknown⟩
    obtain ⟨name, hname⟩ := length_eq_one_iff.mp (read_ok hread).1
    obtain ⟨others, hstores⟩ := stores_catalog (r := r) (t := t) hname
    have hone : 1 ∈ d.ids ⟨.catalog, name⟩ := by
      refine hall ⟨.catalog, name⟩ (by rw [hstores]; exact (.head _)) 1 ?_
      exact t.mem_concerning.mpr
        ⟨⟨Nat.le_refl 1, r.carries_baseline⟩, (t.migration 1).catalog_mem_storeKinds⟩
    have hinit := initialized_of_rows (hlists.catalogRows_ne_nil hstores hone)
    refine ⟨(r.versionOf t snap).getD 0, ?_⟩
    unfold statusOf
    rw [hinit, h.forbidding_eq_none hread hknown, (planned_eq_nil_iff hlists).mpr hall,
      unknown_eq_nil_iff.mpr hknown]
    rfl

/-! ## Histories -/

/-- The deployments that histories of migrate runs over one table lead to, from an empty catalog.
Binaries may carry the table to different lengths, the stores of a run are any sets, and the answers
of the backend stop the run where they will. -/
inductive History (t : Table) : Deployment → Prop where
  | empty : History t .empty
  | migrate {d : Deployment} (r : Runner) (b : Backend) :
      History t d → b.NamesNodup → History t (r.migrate t b d).2

theorem History.sound (h : History t d) : Sound t d := by
  induction h with
  | empty => exact .empty
  | migrate r b _ hb ih => exact (ih.migrate hb).1

/-- Migrations run once, in order and to completion, and the status is `Current` exactly then. -/
theorem migrations_once_in_order (t : Table) (d : Deployment) (h : History t d) : d.ran.Nodup ∧
    (∀ s id, (s, id) ∈ d.ran ↔ id ∈ (d.ledger s).map (·.id) ∧ t.runsIn id s.kind = true) ∧
    (∀ s, ∃ n, (d.ledger s).map (·.id) <+: t.concerning s.kind n) ∧
    (∀ (r : Runner) (b : Backend) report d', b.NamesNodup → r.migrate t b d = (.ok report, d') →
      ∀ snap, r.read t b d' = .ok snap → r.planned t snap r.latest false = []) ∧
    (∀ (r : Runner) (b : Backend) name, b.NamesNodup → b.readError = none →
      b.storeNames .catalog = [name] →
      ((∃ version, r.status t b d = .ok (.current version)) ↔
        (∀ s ∈ r.stores t b, ∀ id, 1 ≤ id → id ≤ r.latest →
          s.kind ∈ (t.migration id).storeKinds → id ∈ (d.ledger s).map (·.id)) ∧
        ∀ row ∈ d.ledger ⟨.catalog, name⟩, row.id ≤ r.latest)) := by
  have hsound := h.sound
  refine ⟨hsound.once, hsound.ran_iff, hsound.ascending, ?_, ?_⟩
  · intro r b report d' hb hrun snap hread
    obtain ⟨hsound', hdone⟩ := hsound.migrate (r := r) hb
    rw [hrun] at hsound' hdone
    have hlists : Lists snap (r.stores t b) d' := (read_ok hread).2
    exact (planned_eq_nil_iff hlists).mpr (hdone rfl)
  · intro r b name hb herror hname
    obtain ⟨snap, hread, hlists⟩ := read_lists (r := r) (t := t) (d := d) hname herror
    have hiff := hsound.status_current_iff hread
    have hstatus : r.status t b d = r.statusOf t b snap := by rw [status, hread]
    rw [hstatus, hiff]
    refine and_congr ?_ ?_
    · refine forall₂_congr fun s _ => ⟨fun hall id hpos hle hkind => ?_, fun hall id hid => ?_⟩
      · exact hall id (t.mem_concerning.mpr ⟨⟨hpos, hle⟩, hkind⟩)
      · obtain ⟨⟨hpos, hle⟩, hkind⟩ := t.mem_concerning.mp hid
        exact hall id hpos hle hkind
    · obtain ⟨others, hstores⟩ := stores_catalog (r := r) (t := t) hname
      rw [hlists, hstores]
      rfl

/-! ## A history of two runs -/

def twoMigrations : Table where
  backendName := "cassandra"
  name := fun id => if id = 1 then "baseline" else "resource_tag_condition_keys"
  migration := fun id =>
    if id = 1 then
      .applies .breaking true [⟨.catalog, .file "0001_baseline.cql" "catalog"⟩,
          ⟨.account, .file "0001_baseline.cql" "account"⟩]
    else .applies .breaking false [⟨.catalog, .code "0002_resource_tag_condition_keys/1"⟩]
  released := []
  fileChecksum := fun text => text
  deletesMarker := fun id kind => id = 1 && kind = .catalog

def twoMigrationsRunner : Runner := ⟨2, "1.0.0", by decide⟩

def failingAt (position : Option Nat) : Backend where
  storeNames := fun kind =>
    match kind with
    | .catalog => ["extenddb"]
    | .data => []
    | .account => ["account_1"]
  readError := none
  detect := fun _ _ => .ok []
  catalogIsEmpty := .ok false
  beforeFirstWrite := fun _ _ => .ok []
  apply := fun i => if position = some i then .fails (.store "unavailable") else .commits [] ""
  writeCatalogVersion := fun _ => .written

theorem failingAt_namesNodup (position) : (failingAt position).NamesNodup := by
  intro kind
  cases kind <;> simp [failingAt]

/-- A run stops before the account's baseline, and the next one goes on there. -/
theorem migrations_once_in_order_resumed :
    let first := (twoMigrationsRunner.migrate twoMigrations (failingAt (some 1)) .empty).2
    let second := (twoMigrationsRunner.migrate twoMigrations (failingAt none) first).2
    first.ids ⟨.catalog, "extenddb"⟩ = [1] ∧ first.ids ⟨.account, "account_1"⟩ = [] ∧
      second.ids ⟨.catalog, "extenddb"⟩ = [1, 2] ∧ second.ids ⟨.account, "account_1"⟩ = [1] ∧
      second.ran.Nodup :=
  ⟨rfl, rfl, rfl, rfl, (migrations_once_in_order twoMigrations _
      (.migrate twoMigrationsRunner (failingAt none)
        (.migrate twoMigrationsRunner (failingAt (some 1)) .empty (failingAt_namesNodup _))
        (failingAt_namesNodup _))).1⟩

end ExtendDb.Migrations
