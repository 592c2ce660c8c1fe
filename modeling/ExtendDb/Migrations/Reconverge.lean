import ExtendDb.Migrations.History

/-!
# Reconverging a catalog an older release wrote to

`WrittenByOlderRelease` is read from the catalog's settings: a dotted `catalog_version`, or the
`resource_tag_migration` row.
-/

namespace ExtendDb.Migrations

open List Bool Deployment Snapshot

variable {r : Runner} {t : Table} {b b' : Backend} {d : Deployment} {snap : Snapshot}

def Accepted (r : Runner) (t : Table) (stores : List StoreRef) (d : Deployment) : Prop :=
  ∀ s ∈ stores, ∀ row ∈ d.ledger s, r.carries row.id = true →
    row.checksum ∈ t.acceptedChecksums row.id s.kind

def Deployment.Marked (d : Deployment) : Prop :=
  d.traces.dottedVersion = true ∨ d.traces.resourceTagMarker = true

namespace Runner

/-! ## The status of a catalog with a trace -/

theorem changed_eq_none_iff {stores} (h : Lists snap stores d) :
    r.changed t snap = none ↔ Accepted r t stores d := by
  unfold changed Accepted
  rw [findSome?_eq_none_iff, h]
  constructor
  · intro hnone s hs row hrow hcarries
    have hfound := hnone (s, row) (mem_flatMap.mpr
      ⟨(s, d.ledger s), mem_map_of_mem hs, mem_map_of_mem hrow⟩)
    by_contra hnot
    simp [hcarries, hnot] at hfound
  · rintro haccepted ⟨store, row⟩ hmem
    obtain ⟨l, hl, hrow⟩ := mem_flatMap.mp hmem
    obtain ⟨s, hs, rfl⟩ := mem_map.mp hl
    obtain ⟨row', hrow', heq⟩ := mem_map.mp hrow
    cases heq
    by_cases hcarries : r.carries row.id = true
    · simp [haccepted s hs row hrow' hcarries]
    · simp [hcarries]

theorem olderReleaseTrace_isSome_iff :
    (olderReleaseTrace snap).isSome = true ↔ snap.hasRow snap.catalog 1 = true ∧
      (snap.traces.dottedVersion = true ∨ snap.traces.resourceTagMarker = true) := by
  unfold olderReleaseTrace
  by_cases hrow : snap.hasRow snap.catalog 1 = true
  · by_cases hdotted : snap.traces.dottedVersion = true
    · simp [hdotted]
    · by_cases hmarker : snap.traces.resourceTagMarker = true
      all_goals simp [hrow, hdotted]
  · simp [hrow]

/-- When the status is `WrittenByOlderRelease`. -/
theorem status_older_iff {name} (hname : b.storeNames .catalog = [name])
    (herror : b.readError = none) :
    (∃ trace, r.status t b d = .ok (.writtenByOlderRelease trace)) ↔
      Accepted r t (r.stores t b) d ∧ 1 ∈ d.ids ⟨.catalog, name⟩ ∧ d.Marked := by
  obtain ⟨others, hstores⟩ := stores_catalog (r := r) (t := t) hname
  obtain ⟨snap, hread, hlists⟩ := read_lists (r := r) (t := t) (d := d) hname herror
  have hcatalog : catalog snap = ⟨.catalog, name⟩ := by
    rw [hlists, hstores]
    rfl
  have hone : hasRow snap ⟨.catalog, name⟩ 1 = true ↔ 1 ∈ d.ids ⟨.catalog, name⟩ := by
    rw [hlists.hasRow_iff]
    exact ⟨fun h => h.2, fun h => ⟨by rw [hstores]; exact (.head _), h⟩⟩
  rw [← changed_eq_none_iff hlists]
  have htraces : snap.traces = d.traces := by rw [hlists]
  have hsome := @olderReleaseTrace_isSome_iff snap
  rw [hcatalog, hone, htraces] at hsome
  unfold status
  rw [hread]
  constructor
  · rintro ⟨trace, hstatus⟩
    simp only [statusOf] at hstatus
    split at hstatus
    · cases hstatus
    cases hforbid : r.forbidding t snap false with
    | none =>
      rw [hforbid] at hstatus
      simp only at hstatus
      split at hstatus
      · cases hstatus
      split at hstatus
      · cases hstatus
      · split at hstatus
        · cases hstatus
        · split at hstatus <;> cases hstatus
    | some status =>
      rw [hforbid] at hstatus
      cases hstatus
      unfold forbidding at hforbid
      split at hforbid
      · rename_i changed hchanged
        cases hforbid
        obtain ⟨id, storeName, recorded, expected, heq⟩ := changed_eq_changed hchanged
        cases heq
      · rename_i hchanged
        refine ⟨hchanged, hsome.mp ?_⟩
        split at hforbid
        · rename_i htrace
          rw [htrace]
          rfl
        · split at hforbid <;> cases hforbid
  · rintro ⟨hchanged, hmarked⟩
    obtain ⟨trace, htrace⟩ := Option.isSome_iff_exists.mp (hsome.mpr hmarked)
    refine ⟨trace, ?_⟩
    have hinit := initialized_of_rows (hlists.catalogRows_ne_nil hstores hmarked.1)
    simp only [statusOf, hinit, forbidding, hchanged, htrace]
    rfl

/-! ## What a step of a reconverge keeps -/

section

variable {p : Progress} {step : Planned} {checksum : String} {notes : List String}
  {appliedAt : String}

theorem commit_accepted {stores} (h : Accepted r t stores p.deployment)
    (hsum : t.recordChecksum step.id step.store.kind = some checksum) :
    Accepted r t stores (r.commit t p step checksum notes appliedAt) := by
  intro s hs row hrow hcarries
  rcases commit_ledger s hrow with hrow | ⟨rfl, hid, hchecksum⟩
  · exact h s hs row hrow hcarries
  · rw [hchecksum, hid]
    exact t.recorded_mem_accepted hsum

theorem commit_ids_mono {s id} (h : id ∈ p.deployment.ids s) :
    id ∈ (r.commit t p step checksum notes appliedAt).ids s := by
  cases hrec : step.recorded with
  | false =>
    rw [commit_ids hrec]
    split
    · exact mem_append_left _ h
    · exact h
  | true =>
    unfold commit
    split <;> split <;> exact h

theorem commit_version (h : step.store.kind ≠ .catalog) :
    (r.commit t p step checksum notes appliedAt).traces.catalogVersion =
      p.deployment.traces.catalogVersion := by
  unfold commit
  split <;> split <;> rfl

theorem commit_dotted_catalog (h : step.store.kind = .catalog) :
    (r.commit t p step checksum notes appliedAt).traces.dottedVersion = false := by
  unfold commit
  simp only [if_pos h]
  exact dotted_writeVersion _

end

variable {e : MigrationError}

theorem applySteps_keeps_until {I : Deployment → Prop} (steps) {n} (hfails : b.apply n = .fails e)
    (hcommit : ∀ (p : Progress) step checksum notes appliedAt, ∀ j < n, steps[j]? = some step →
      t.recordChecksum step.id step.store.kind = some checksum →
      I p.deployment → I (r.commit t p step checksum notes appliedAt))
    (hversion : ∀ d step version, ∀ j < n, steps[j]? = some step →
      VersionDue step (steps.drop (j + 1)) → I d → I (d.writeVersion version))
    (p) (h : I p.deployment) : I (r.applySteps t b 0 steps p).2.deployment := by
  have hsplit {j step ahead} (h : steps.drop j = step :: ahead) :
      steps[j]? = some step ∧ steps.drop (j + 1) = ahead := by
    rw [← head?_drop, ← tail_drop, h]
    exact ⟨rfl, rfl⟩
  obtain ⟨j, ahead, hkept, -⟩ := applySteps_keeps (r := r) (t := t) (b := b)
    (I := fun j d ahead => j ≤ n ∧ steps.drop j = ahead ∧ I d)
    (fun j p step ahead checksum notes appliedAt happly hsum ⟨hj, hahead, hI⟩ => by
      have hlt : j < n := lt_of_le_of_ne hj fun heq => happly e (heq ▸ hfails)
      obtain ⟨hget, hahead⟩ := hsplit hahead
      exact ⟨hlt, hahead, hcommit p step checksum notes appliedAt j hlt hget hsum hI⟩)
    (fun j _ d' step ahead version hdue ⟨_, hahead, _⟩ ⟨hj, hrest, hI⟩ =>
      ⟨hj, hrest, hversion d' step version j hj (hsplit hahead).1 (hrest ▸ hdue) hI⟩)
    0 steps p ⟨n.zero_le, rfl, h⟩
  exact hkept.2.2

/-! ## A completed reconverge -/

theorem catalogRows_after_ne_nil {step checksum} (h : snap.catalogRows ≠ []) :
    (r.after t snap step checksum).catalogRows ≠ [] := by
  unfold after
  split
  · exact h
  unfold catalogRows putRow at *
  cases hl : snap.ledgers with
  | nil => simp [hl] at h
  | cons l ls =>
    by_cases hstore : l.1 = step.store
    · simp [hstore]
    · simpa [hl, hstore] using h

def StopsUnseen (t : Table) (plan : List Planned) (n : Nat) (d : Deployment) : Prop :=
  (d.traces.dottedVersion = true ∧ ∀ i < n, ∀ step, plan[i]? = some step →
    step.store.kind ≠ .catalog ∧ plan[i + 1]?.any (fun next => next.id = step.id) = true) ∨
  (d.traces.resourceTagMarker = true ∧ ∀ i < n, ∀ step, plan[i]? = some step →
    (bodyOf t step).2.isSome = true → t.deletesMarker step.id step.store.kind = false)

theorem applySteps_marked_until {n : Nat} (steps) (hfails : b.apply n = .fails e) (p)
    (h : StopsUnseen t steps n p.deployment) :
    (r.applySteps t b 0 steps p).2.deployment.Marked := by
  rcases h with ⟨hdotted, hquiet⟩ | ⟨hmarker, hquiet⟩
  · left
    refine applySteps_keeps_until (I := fun d' => d'.traces.dottedVersion = true) steps hfails
      ?_ ?_ p hdotted
    · intro p step checksum notes appliedAt j hj hget _ hI
      unfold CatalogTraces.dottedVersion
      rw [commit_version (hquiet j hj step hget).1]
      exact hI
    · -- the version row is written after the last step of an id, which no step before `n` is
      intro d' step version j hj hget hdue _
      have hnext := (hquiet j hj step hget).2
      have hlast := hdue.1
      rw [head?_drop] at hlast
      cases hget' : steps[j + 1]? with
      | none =>
        rw [hget'] at hnext
        cases hnext
      | some next =>
        rw [hget'] at hnext hlast
        simp only [Option.any_some] at hnext
        simp [hnext] at hlast
  · right
    refine applySteps_keeps_until (I := fun d' => d'.traces.resourceTagMarker = true) steps hfails
      ?_ (fun _ _ _ _ _ _ _ hI => hI) p hmarker
    intro p step checksum notes appliedAt j hj hget _ hI
    rw [commit_marker]
    split
    · next hbody => rw [hI, hquiet j hj step hget hbody]; rfl
    · exact hI

section

variable {I : Deployment → Prop} (hcommit : ∀ (p : Progress) step checksum notes appliedAt,
    I p.deployment → I (r.commit t p step checksum notes appliedAt))
  (hversion : ∀ d version, I d → I (d.writeVersion version))
include hcommit hversion

theorem applySteps_stays (i steps p) (h : I p.deployment) :
    I (r.applySteps t b i steps p).2.deployment := by
  obtain ⟨-, -, hkept, -⟩ := applySteps_keeps (r := r) (t := t) (b := b) (I := fun _ d' _ => I d')
    (fun _ p step _ checksum notes appliedAt _ _ => hcommit p step checksum notes appliedAt)
    (fun _ _ d' _ _ version _ _ => hversion d' version) i steps p h
  exact hkept

/-- What a step brings about that the run has gone past is there where the run stops. -/
theorem applySteps_past {step} (i steps p j) (hget : steps[j]? = some step)
    (hnew : ∀ (p q : Progress) checksum notes appliedAt,
      (q.deployment = r.commit t p step checksum notes appliedAt ∨ ∃ version, q.deployment =
        (r.commit t p step checksum notes appliedAt).writeVersion version) →
      (VersionDue step (steps.drop (j + 1)) → q.deployment.traces.dottedVersion = false) →
      I q.deployment)
    (hrows : p.snap.catalogRows ≠ [])
    (hpast : (r.applySteps t b i steps p).1 = .ok () ∨ b.writeCatalogVersion (i + j) = .written ∧
      p.applied.length + j < (r.applySteps t b i steps p).2.applied.length) :
    I (r.applySteps t b i steps p).2.deployment := by
  induction steps generalizing i p j with
  | nil => cases hget
  | cons first rest ih =>
    rcases applySteps_cons (r := r) (t := t) (b := b) i first rest p with
      ⟨e, hrun⟩ | ⟨checksum, notes, appliedAt, q, -, -, hle, hq, ⟨e, hrun, hsame⟩ |
        ⟨hrun, hsnap, hdue⟩⟩ <;> rw [hrun] at hpast ⊢
    · rcases hpast with hok | ⟨-, hpast⟩
      · cases hok
      · exact absurd hpast (Nat.not_lt.mpr (Nat.le_add_right _ _))
    · rcases hpast with hok | ⟨hwritten, hpast⟩
      · cases hok
      cases j with
      | zero =>
        rw [hsame hwritten] at hpast
        omega
      | succ j =>
        simp only at hpast
        omega
    have hrows' : q.snap.catalogRows ≠ [] := hsnap ▸ catalogRows_after_ne_nil hrows
    cases j with
    | zero =>
      cases hget
      exact applySteps_stays hcommit hversion (i + 1) _ q
        (hnew p q checksum notes appliedAt (hq.imp_right And.right) fun h => hdue h hrows')
    | succ j =>
      refine ih (i + 1) q j hget hnew hrows' (hpast.imp_right fun ⟨hwritten, hpast⟩ =>
        ⟨?_, by omega⟩)
      rwa [Nat.add_right_comm]

end

theorem applySteps_unmarked {n} (steps p) (hrows : p.snap.catalogRows ≠ [])
    (hpast : (r.applySteps t b 0 steps p).1 = .ok () ∨
      (∀ i < n, b.writeCatalogVersion i = .written) ∧
      p.applied.length + n ≤ (r.applySteps t b 0 steps p).2.applied.length)
    (h : ¬ StopsUnseen t steps n p.deployment) :
    ¬ (r.applySteps t b 0 steps p).2.deployment.Marked := by
  obtain ⟨hdotted, hmarker⟩ := not_or.mp h
  have hpassed {i} (hi : i < n) : (r.applySteps t b 0 steps p).1 = .ok () ∨
      b.writeCatalogVersion (0 + i) = .written ∧
        p.applied.length + i < (r.applySteps t b 0 steps p).2.applied.length :=
    hpast.imp_right fun ⟨hwritten, hpast⟩ => ⟨by simpa using hwritten i hi, by omega⟩
  have hundotted : (r.applySteps t b 0 steps p).2.deployment.traces.dottedVersion = false := by
    have hkeep (p : Progress) (step checksum notes appliedAt)
        (h : p.deployment.traces.dottedVersion = false) :
        (r.commit t p step checksum notes appliedAt).traces.dottedVersion = false :=
      commit_undotted h
    by_cases hd : p.deployment.traces.dottedVersion = true
    · have hseen := not_and.mp hdotted hd
      push Not at hseen
      obtain ⟨i, hi, step, hget, hstep⟩ := hseen
      refine applySteps_past (I := fun d => d.traces.dottedVersion = false) hkeep
        (fun _ version _ => dotted_writeVersion version) 0 steps p i hget ?_ hrows (hpassed hi)
      intro p q checksum notes appliedAt hq hdue
      by_cases hkind : step.store.kind = .catalog
      · rcases hq with hq | ⟨version, hq⟩ <;> rw [hq]
        · exact commit_dotted_catalog hkind
        · exact dotted_writeVersion version
      · refine hdue ⟨?_, hkind⟩
        have hlast := hstep hkind
        rw [head?_drop]
        cases hnext : steps[i + 1]? with
        | none => rfl
        | some next => simpa [hnext] using hlast
    · exact applySteps_stays (I := fun d => d.traces.dottedVersion = false) hkeep
        (fun _ version _ => dotted_writeVersion version) 0 steps p (eq_false_of_ne_true hd)
  have hunmarked : (r.applySteps t b 0 steps p).2.deployment.traces.resourceTagMarker = false := by
    have hkeep (p : Progress) (step checksum notes appliedAt)
        (h : p.deployment.traces.resourceTagMarker = false) :
        (r.commit t p step checksum notes appliedAt).traces.resourceTagMarker = false := by
      simp [commit_marker, h]
    by_cases hm : p.deployment.traces.resourceTagMarker = true
    · have hseen := not_and.mp hmarker hm
      push Not at hseen
      obtain ⟨i, hi, step, hget, hbody, hdeletes⟩ := hseen
      refine applySteps_past (I := fun d => d.traces.resourceTagMarker = false) hkeep
        (fun _ _ h => h) 0 steps p i hget ?_ hrows (hpassed hi)
      intro p q checksum notes appliedAt hq _
      have hcommitted : (r.commit t p step checksum notes appliedAt).traces.resourceTagMarker =
          false := by
        simpa [commit_marker, hbody] using fun _ => eq_true_of_ne_false hdeletes
      rcases hq with hq | ⟨version, hq⟩ <;> rw [hq] <;> exact hcommitted
    · exact applySteps_stays (I := fun d => d.traces.resourceTagMarker = false) hkeep
        (fun _ _ h => h) 0 steps p (eq_false_of_ne_true hm)
  rintro (hstill | hstill)
  · rw [hundotted] at hstill
    cases hstill
  · rw [hunmarked] at hstill
    cases hstill

theorem catalog_mem_planned {name others} (hstores : r.stores t b = ⟨.catalog, name⟩ :: others)
    (hread : r.read t b d = .ok snap) {id} (hcarries : r.carries id = true)
    (hrerun : reruns t true id = true) :
    ∃ step ∈ r.planned t snap r.latest true, step.id = id ∧ step.store = ⟨.catalog, name⟩ := by
  have hlists : Lists snap (r.stores t b) d := (read_ok hread).2
  simp only [carries, and_eq_true, decide_eq_true_eq] at hcarries
  refine ⟨⟨id, ⟨.catalog, name⟩, (t.migration id).kind, snap.hasRow ⟨.catalog, name⟩ id⟩,
    mem_planned.mpr ⟨⟨hcarries.1, hcarries.2, hcarries.2⟩, ?_, .inl hrerun, rfl, rfl⟩,
    rfl, rfl⟩
  rw [hlists.mem_storesOf, hstores]
  exact ⟨.head _, (t.migration id).catalog_mem_storeKinds⟩

end Runner

open Runner

theorem Runner.stores_congr (h : b'.storeNames = b.storeNames) : r.stores t b' = r.stores t b := by
  unfold stores
  rw [h]

def writtenRow (id : Nat) (checksum : String) : LedgerRow :=
  ⟨id, twoMigrations.name id, .breaking, checksum, .applied, "", "", "1.0.0"⟩

def startedByOlderRelease : Deployment where
  ledger := fun store =>
    if store = ⟨.catalog, "extenddb"⟩ then
      [writtenRow 1 "catalog", writtenRow 2 "0002_resource_tag_condition_keys/1"]
    else if store = ⟨.account, "account_1"⟩ then [writtenRow 1 "account"]
    else []
  traces := ⟨some "0.0.3", true⟩
  ran := []

end ExtendDb.Migrations
