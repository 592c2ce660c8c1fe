import Mathlib.Data.List.Perm.Subperm
import ExtendDb.Restore.Verified

/-!
# Resumed restores apply every item once

The contents of the data files are fixed.
-/

namespace ExtendDb

open List Option RestoreState

variable {α κ : Type}

def fileAt (files : List (List α)) (i : Nat) : List α := files[i]?.getD []

/-- The prefix of the backup's item sequence a record names. -/
def appliedItems (files : List (List α)) (recorded : Option (Nat × Nat)) : List α :=
  match recorded with
  | none => []
  | some (i, n) => (files.take i).flatten ++ (fileAt files i).take n

section

variable (files : List (List α))

/-- A pass over files that never change: it reads a part of the file from its start, and its verified
end is the end of a file with the listed item count. -/
def ReadsFile (counts : List Nat) (pass : FilePass α) : Prop :=
  pass.file < files.length ∧ pass.items <+: fileAt files pass.file ∧
    (pass.verified = true → pass.items = fileAt files pass.file ∧
      counts[pass.file]? = some (fileAt files pass.file).length)

def Continues (recorded : Option (Nat × Nat)) (i n : Nat) : Prop :=
  recorded = some (i, n) ∨ n = 0 ∧ (recorded = none ∧ i = 0 ∨
      ∃ l, i = l + 1 ∧ recorded = some (l, (fileAt files l).length))

def ExactBefore (counts : List Nat) (i : Nat) : Prop :=
  ∀ j < i, counts[j]? = some (fileAt files j).length

theorem flatten_take_succ (i) :
    (files.take (i + 1)).flatten = (files.take i).flatten ++ fileAt files i := by
  rw [take_add_one, fileAt]
  cases files[i]? <;> simp

end

variable {recorded : Option (Nat × Nat)}

theorem Continues.appliedItems_eq {files : List (List α)} {i n} (h : Continues files recorded i n) :
    appliedItems files recorded = (files.take i).flatten ++ (fileAt files i).take n := by
  rcases h with rfl | ⟨rfl, ⟨rfl, rfl⟩ | ⟨l, rfl, rfl⟩⟩
  · rfl
  · simp [appliedItems]
  · rw [appliedItems, flatten_take_succ, take_length, take_zero, append_nil]

theorem appliedItems_isPrefix_flatten (files : List (List α)) (recorded) :
    appliedItems files recorded <+: files.flatten := by
  match recorded with
  | none => exact nil_prefix
  | some (i, n) =>
    have hfile : (files.take i).flatten ++ fileAt files i <+: files.flatten := by
      rw [← flatten_take_succ]
      refine ⟨(files.drop (i + 1)).flatten, ?_⟩
      rw [← flatten_append, take_append_drop]
    exact ((prefix_append_right_inj _).mpr <| take_prefix _ _).trans hfile

theorem take_append_slice (items : List α) (start n) :
    items.take start ++ slice items start (start + n) = items.take (start + n) := by
  have htake : items.take start = (items.take (start + n)).take start := by
    rw [take_take, Nat.min_eq_left (Nat.le_add_right _ _)]
  rw [slice, htake, take_append_drop]

variable {items : List α}

theorem slice_of_isPrefix_part {part} (h : part <+: items) (start n) (hn : start + n ≤ part.length) :
    slice part start (start + n) = slice items start (start + n) := by
  obtain ⟨rest, rfl⟩ := h
  rw [slice, slice, take_append_of_le_length hn]

variable {a : α}

theorem mem_of_mem_slice {start stop} (h : a ∈ slice items start stop) : a ∈ items :=
  mem_of_mem_take (mem_of_mem_drop h)

theorem mem_flatten_of_fileAt {files i} (h : a ∈ fileAt files i) : a ∈ files.flatten := by
  rw [fileAt] at h
  cases hfile : files[i]? with
  | none => simp [hfile] at h
  | some file =>
    rw [hfile] at h
    exact mem_flatten.mpr ⟨file, mem_of_getElem? hfile, h⟩

theorem ExactBefore.sum_eq {files : List (List α)} {counts} (hlength : files.length = counts.length)
    (h : ExactBefore files counts files.length) :
    counts.sum = files.flatten.length := by
  have hcounts : counts = files.map length := by
    apply ext_getElem?
    intro j
    by_cases hj : j < files.length
    · rw [h j hj, getElem?_map, fileAt, getElem?_eq_getElem hj]
      rfl
    · rw [getElem?_eq_none (by omega), getElem?_eq_none (by simp; omega)]
  rw [hcounts, length_flatten]

theorem nodup_keys_of_length {key : α → κ} {rows : List α} (hkeys : (rows.map key).Nodup)
    (hfrom : ∀ r ∈ rows, r ∈ items)
    (hlength : rows.length = items.length) : (items.map key).Nodup := by
  have hsub : rows.map key ⊆ items.map key := by
    intro k hk
    obtain ⟨r, hr, rfl⟩ := mem_map.mp hk
    exact mem_map_of_mem (hfrom r hr)
  have hperm : (rows.map key).Perm (items.map key) :=
    (subperm_of_subset hkeys hsub).perm_of_length_le (by simp [hlength])
  exact hperm.nodup_iff.mp hkeys

theorem perm_of_cover {key : α → κ} {rows : List α} (hkeys : (rows.map key).Nodup)
    (hcover : ∀ a ∈ items, ∃ r ∈ rows, key r = key a) (hfrom : ∀ r ∈ rows, r ∈ items)
    (hitems : (items.map key).Nodup) : rows.Perm items := by
  refine (perm_ext_iff_of_nodup hkeys.of_map hitems.of_map).mpr fun a => ⟨hfrom a, ?_⟩
  intro ha
  obtain ⟨r, hr, heq⟩ := hcover a ha
  rwa [← inj_on_of_nodup_map hitems (hfrom r hr) ha heq]

section

variable (key : α → κ) (backend : RestoreBackend) (files : List (List α)) (counts : List Nat)

/-- The target has a row for the item: the item itself where rows are never overwritten. -/
def Holds (rows : List (α × Nat)) (a : α) : Prop :=
  ∃ r ∈ rows, key r.1 = key a ∧ (backend = .transactional → r.1 = a)

def Complete (rows : List (α × Nat)) : Prop :=
  (files.flatten.map key).Nodup ∧ ∀ a ∈ files.flatten, Holds key backend rows a

def Upcoming (recorded : Option (Nat × Nat)) (progress : List (Option Nat)) (i : Nat) : Prop :=
  (∃ last n, recorded = some (last, n) ∧ i ≤ last ∧
      ∀ j ≥ i, progress[j]? = counts[j]?.map (recordedSlot recorded j)) ∨
    Continues files recorded i 0 ∧ ExactBefore files counts i ∧
      ∀ j ≥ i, progress[j]? = counts[j]?.map fun _ => none

structure LoadInvariant (recorded : Option (Nat × Nat)) (rows : List (α × Nat))
    (progress : List (Option Nat)) (load : FileLoad α) : Prop where
  reads : ReadsFile files counts load.pass
  continues : Continues files recorded load.pass.file load.applied
  exact : ExactBefore files counts load.pass.file
  later : ∀ j > load.pass.file, progress[j]? = counts[j]?.map fun _ => none
  wrote : load.wrote = true → recorded = some (load.pass.file, load.applied)
  within : load.applied ≤ (fileAt files load.pass.file).length
  sent : load.sent ≤ load.pass.items.length ∨ load.sent = load.applied
  ended : load.ended = true → load.sent = load.pass.items.length ∧ load.pass.verified = true
  batch : load.applied + load.batch ≤ load.sent
  flight : ∀ a ∈ load.inFlight, a ∈ files.flatten
  landed : ∀ a ∈ load.batchItems load.batch, a ∈ load.inFlight ∨ Holds key backend rows a
  grounded : backend = .transactional → load.batch = 0 ∧ load.inFlight = []

def JobInvariant (recorded : Option (Nat × Nat)) (rows : List (α × Nat)) (job : RestoreJob α) :
    Prop :=
  match job.phase with
  | .before i => Upcoming files counts recorded job.progress i
  | .loading load => LoadInvariant key backend files counts recorded rows job.progress load
  | .counted => Complete key backend files rows

def RecordInvariant (recorded : Option (Nat × Nat)) : Prop :=
  ∀ i n, recorded = some (i, n) →
    i < files.length ∧ n ≤ (fileAt files i).length ∧ ExactBefore files counts i

structure TargetInvariant (recorded : Option (Nat × Nat)) (rows : List (α × Nat)) : Prop where
  origin : ∀ r ∈ rows, r.1 ∈ files.flatten
  keys : ((rows.map Prod.fst).map key).Nodup
  held : ∀ a ∈ appliedItems files recorded, Holds key backend rows a

structure ResumeInvariant (s : RestoreState α) : Prop where
  record : RecordInvariant files counts s.recorded
  target : TargetInvariant key backend files s.recorded s.rows
  stray : ∀ r ∈ s.stray, r.1 ∈ files.flatten
  grounded : backend = .transactional → s.stray = []
  job : ∀ job, s.job = some job → JobInvariant key backend files counts s.recorded s.rows job
  done : s.status = .done → Complete key backend files s.rows

end

variable {key : α → κ} {backend : RestoreBackend} {files : List (List α)} {counts : List Nat}

theorem resumeInvariant_initial : ResumeInvariant key backend files counts (initial α) := by
  refine ⟨?_, ⟨?_, ?_, ?_⟩, ?_, ?_, ?_, ?_⟩ <;>
    simp [initial, RecordInvariant, appliedItems]

section

variable [DecidableEq κ] {row : α × Nat} {rows rows' : List (α × Nat)}

variable (hbackend : backend ≠ .transactional) (h : Lands key row rows rows')
include hbackend h

theorem Lands.holds {a} (ha : Holds key backend rows a) : Holds key backend rows' a := by
  obtain ⟨r, hr, hkey, _⟩ := ha
  rcases h with rfl | ⟨rfl, _⟩
  · by_cases hrow : key r.1 = key row.1
    · exact ⟨row, by simp [upsertRow], hrow ▸ hkey, fun hb => absurd hb hbackend⟩
    · exact ⟨r, by simp [upsertRow, hr, hrow], hkey, fun hb => absurd hb hbackend⟩
  · exact ⟨r, hr, hkey, fun hb => absurd hb hbackend⟩

theorem Lands.holds_self : Holds key backend rows' row.1 := by
  rcases h with rfl | ⟨rfl, r, hr, hkey⟩
  · exact ⟨row, by simp [upsertRow], rfl, fun hb => absurd hb hbackend⟩
  · exact ⟨r, hr, hkey, fun hb => absurd hb hbackend⟩

omit hbackend in
theorem Lands.keys (hkeys : ((rows.map Prod.fst).map key).Nodup) :
    ((rows'.map Prod.fst).map key).Nodup := by
  rcases h with rfl | ⟨rfl, _⟩
  · rw [List.map_map] at hkeys ⊢
    rw [upsertRow, map_append, nodup_append]
    refine ⟨hkeys.sublist (filter_sublist.map _), nodup_singleton _, ?_⟩
    intro k hk k' hk'
    obtain ⟨r, hr, rfl⟩ := mem_map.mp hk
    rw [map_singleton, mem_singleton] at hk'
    subst hk'
    simpa using (mem_filter.mp hr).2
  · exact hkeys

theorem Lands.target (hrow : row.1 ∈ files.flatten)
    (ht : TargetInvariant key backend files recorded rows) :
    TargetInvariant key backend files recorded rows' where
  origin r hr := by
    rcases h.mem r hr with hold | rfl
    · exact ht.origin r hold
    · exact hrow
  keys := h.keys ht.keys
  held a ha := h.holds hbackend (ht.held a ha)

theorem Lands.complete (hc : Complete key backend files rows) : Complete key backend files rows' :=
  ⟨hc.1, fun a ha => h.holds hbackend (hc.2 a ha)⟩

theorem Lands.load {progress load}
    (hl : LoadInvariant key backend files counts recorded rows progress load) :
    LoadInvariant key backend files counts recorded rows' progress load :=
  { hl with landed := fun a ha => (hl.landed a ha).imp_right (h.holds hbackend) }

theorem Lands.job {job} (hj : JobInvariant key backend files counts recorded rows job) :
    JobInvariant key backend files counts recorded rows' job := by
  obtain ⟨progress, phase⟩ := job
  cases phase with
  | before i => exact hj
  | loading load => exact h.load hbackend hj
  | counted => exact h.complete hbackend hj

end

theorem recordedSlot_later {last n j} (h : last < j) :
    recordedSlot (some (last, n)) j = fun _ => none := by
  funext count
  have hlt : ¬ j < last := by omega
  have hne : ¬ j = last := by omega
  simp [recordedSlot, hlt, hne]

theorem upcoming_progressFromRecords (recorded) :
    Upcoming files counts recorded (progressFromRecords recorded counts) 0 := by
  have hslot : ∀ j, (progressFromRecords recorded counts)[j]? =
      counts[j]?.map (recordedSlot recorded j) := fun j => getElem?_mapIdx
  cases recorded with
  | none =>
    exact .inr ⟨.inr ⟨rfl, .inl ⟨rfl, rfl⟩⟩, fun j hj => absurd hj (Nat.not_lt_zero j),
      fun j _ => hslot j⟩
  | some position => exact .inl ⟨position.1, position.2, rfl, Nat.zero_le _, fun j _ => hslot j⟩

variable {progress : List (Option Nat)} {slot : Option Nat}

theorem Upcoming.skip {i count} (h : Upcoming files counts recorded progress i)
    (hfits : ∀ j count, counts[j]? = some count → (fileAt files j).length ≤ count)
    (hrecord : RecordInvariant files counts recorded) (hcount : counts[i]? = some count)
    (hslot : progress[i]? = some slot) (hcomplete : startAt slot count = none) :
    Upcoming files counts recorded progress (i + 1) := by
  rcases h with ⟨last, n, rfl, hle, hprogress⟩ | ⟨_, _, hprogress⟩
  · obtain ⟨_, hwithin, hexact⟩ := hrecord last n rfl
    rcases Nat.lt_or_eq_of_le hle with hlt | rfl
    · exact .inl ⟨last, n, rfl, hlt, fun j hj => hprogress j (by omega)⟩
    have hn : slot = some n := by
      have hi := hprogress i (Nat.le_refl i)
      simpa [hslot, hcount, recordedSlot] using hi
    have hge : count ≤ n := by
      by_contra hlt
      simp [hn, startAt, hlt] at hcomplete
    have hlength : n = (fileAt files i).length ∧ count = (fileAt files i).length := by
      have := hfits i count hcount
      omega
    refine .inr ⟨.inr ⟨rfl, .inr ⟨i, rfl, by rw [hlength.1]⟩⟩, ?_, ?_⟩
    · intro j hj
      rcases Nat.lt_succ_iff_lt_or_eq.mp hj with hj | rfl
      · exact hexact j hj
      · rw [hcount, hlength.2]
    · intro j hj
      rw [hprogress j (by omega), recordedSlot_later hj]
  · have hnone : slot = none := by
      have hi := hprogress i (Nat.le_refl i)
      simpa [hslot, hcount] using hi
    simp [hnone, startAt] at hcomplete

variable {rows : List (α × Nat)}

theorem Upcoming.open {i count start number pass} (h : Upcoming files counts recorded progress i)
    (hrecord : RecordInvariant files counts recorded) (hcount : counts[i]? = some count)
    (hslot : progress[i]? = some slot) (hstart : startAt slot count = some start)
    (hfile : pass.file = i) (hreads : ReadsFile files counts pass) :
    LoadInvariant key backend files counts recorded rows progress
      ⟨pass, number, start, start, false, false, 0, []⟩ := by
  subst hfile
  have hposition : Continues files recorded pass.file start ∧
      start ≤ (fileAt files pass.file).length ∧ ExactBefore files counts pass.file ∧
      ∀ j > pass.file, progress[j]? = counts[j]?.map fun _ => none := by
    rcases h with ⟨last, n, rfl, hle, hprogress⟩ | ⟨hcontinues, hexact, hprogress⟩
    · have hi := hprogress pass.file (Nat.le_refl _)
      rcases Nat.lt_or_eq_of_le hle with hlt | rfl
      · -- a file before the recorded one is complete
        have hcomplete : slot = some count := by simpa [hslot, hcount, recordedSlot, hlt] using hi
        simp [hcomplete, startAt] at hstart
      have hn : slot = some n := by simpa [hslot, hcount, recordedSlot] using hi
      have hstart : start = n := by
        rw [hn, startAt] at hstart
        split at hstart
        · cases hstart
        · exact (some.inj hstart).symm
      obtain ⟨_, hwithin, hexact⟩ := hrecord pass.file n rfl
      subst hstart
      refine ⟨.inl rfl, hwithin, hexact, fun j hj => ?_⟩
      rw [hprogress j (by omega), recordedSlot_later hj]
    · have hnone : slot = none := by
        have hi := hprogress pass.file (Nat.le_refl _)
        simpa [hslot, hcount] using hi
      have hzero : start = 0 := by
        rw [hnone] at hstart
        exact (some.inj hstart).symm
      subst hzero
      exact ⟨hcontinues, Nat.zero_le _, hexact, fun j hj => hprogress j (by omega)⟩
  obtain ⟨hcontinues, hwithin, hexact, hlater⟩ := hposition
  exact {
    reads := hreads
    continues := hcontinues
    exact := hexact
    later := hlater
    wrote := by simp
    within := hwithin
    sent := .inr rfl
    ended := by simp
    batch := Nat.le_refl _
    flight := by simp
    landed := by simp [FileLoad.batchItems, slice]
    grounded := fun _ => ⟨rfl, rfl⟩ }

section

variable {load : FileLoad α} {n : Nat}

variable (h : LoadInvariant key backend files counts recorded rows progress load)
include h

theorem LoadInvariant.mem_batchItems {a} (ha : a ∈ load.batchItems n) : a ∈ files.flatten :=
  mem_flatten_of_fileAt (h.reads.2.1.subset (mem_of_mem_slice ha))

theorem LoadInvariant.close (hended : load.ended = true) (happlied : load.applied = load.sent)
    (hwrote : load.wrote = true) :
    Upcoming files counts recorded progress (load.pass.file + 1) := by
  obtain ⟨hsent, hverified⟩ := h.ended hended
  obtain ⟨hitems, hcount⟩ := h.reads.2.2 hverified
  have hfull : load.applied = (fileAt files load.pass.file).length := by
    rw [happlied, hsent, hitems]
  refine .inr ⟨.inr ⟨rfl, .inr ⟨_, rfl, ?_⟩⟩, ?_, fun j hj => h.later j hj⟩
  · rw [h.wrote hwrote, hfull]
  intro j hj
  rcases Nat.lt_succ_iff_lt_or_eq.mp hj with hj | rfl
  · exact h.exact j hj
  · exact hcount

variable (hpos : 0 < n) (hn : load.applied + n ≤ load.sent)
include hpos hn

theorem LoadInvariant.sent_le : load.applied + n ≤ load.pass.items.length := by
  rcases h.sent with hsent | hsent <;> omega

theorem LoadInvariant.batchItems_eq :
    load.batchItems n = slice (fileAt files load.pass.file) load.applied (load.applied + n) :=
  slice_of_isPrefix_part h.reads.2.1 _ _ (h.sent_le hpos hn)

theorem LoadInvariant.appliedItems_batch :
    appliedItems files (some (load.pass.file, load.applied + n)) =
      appliedItems files recorded ++ load.batchItems n := by
  rw [h.continues.appliedItems_eq, h.batchItems_eq hpos hn, append_assoc, take_append_slice]
  rfl

theorem LoadInvariant.record :
    RecordInvariant files counts (some (load.pass.file, load.applied + n)) := by
  intro i m heq
  cases heq
  exact ⟨h.reads.1, Nat.le_trans (h.sent_le hpos hn) h.reads.2.1.length_le, h.exact⟩

theorem LoadInvariant.advance {rows'} (hflight : load.inFlight = []) :
    LoadInvariant key backend files counts (some (load.pass.file, load.applied + n)) rows' progress
      { load with applied := load.applied + n, wrote := true, batch := 0 } where
  reads := h.reads
  continues := Or.inl rfl
  exact := h.exact
  later := h.later
  wrote _ := rfl
  within := Nat.le_trans (h.sent_le hpos hn) h.reads.2.1.length_le
  sent := by
    rcases h.sent with hsent | hsent
    · exact .inl hsent
    · exact absurd hsent (by omega)
  ended := h.ended
  batch := hn
  flight := h.flight
  landed := by simp [FileLoad.batchItems, slice]
  grounded _ := ⟨rfl, hflight⟩

end

theorem Upcoming.appliedItems_eq (h : Upcoming files counts recorded progress files.length)
    (hrecord : RecordInvariant files counts recorded) :
    appliedItems files recorded = files.flatten ∧ ExactBefore files counts files.length := by
  rcases h with ⟨last, n, rfl, hle, _⟩ | ⟨hcontinues, hexact, _⟩
  · exact absurd (hrecord last n rfl).1 (by omega)
  · refine ⟨?_, hexact⟩
    rw [hcontinues.appliedItems_eq, take_length, take_zero, append_nil]

theorem TargetInvariant.complete (h : TargetInvariant key backend files recorded rows)
    (happlied : appliedItems files recorded = files.flatten)
    (hlength : rows.length = files.flatten.length) : Complete key backend files rows := by
  refine ⟨nodup_keys_of_length h.keys ?_ (by simpa using hlength), fun a ha => ?_⟩
  · intro r hr
    obtain ⟨row, hrow, rfl⟩ := mem_map.mp hr
    exact h.origin row hrow
  · exact h.held a (happlied ▸ ha)

theorem Holds.append {new} (h : Holds key backend rows a) : Holds key backend (rows ++ new) a := by
  obtain ⟨r, hr, hheld⟩ := h
  exact ⟨r, mem_append_left _ hr, hheld⟩

theorem TargetInvariant.commit {recorded' batch number}
    (h : TargetInvariant key backend files recorded rows) (hbatch : ∀ a ∈ batch, a ∈ files.flatten)
    (hfresh : ((rows.map Prod.fst ++ batch).map key).Nodup)
    (happlied : appliedItems files recorded' = appliedItems files recorded ++ batch) :
    TargetInvariant key backend files recorded' (rows ++ batch.map (·, number)) where
  origin r hr := by
    rcases mem_append.mp hr with hold | hnew
    · exact h.origin r hold
    · obtain ⟨a, ha, rfl⟩ := mem_map.mp hnew
      exact hbatch a ha
  keys := by
    simpa [Function.comp_def] using hfresh
  held a ha := by
    rw [happlied] at ha
    rcases mem_append.mp ha with hold | hnew
    · exact (h.held a hold).append
    · exact ⟨(a, number), mem_append_right _ (mem_map_of_mem hnew), rfl, fun _ => rfl⟩

variable {s : RestoreState α}

theorem ResumeInvariant.mem_abandoned (h : ResumeInvariant key backend files counts s) :
    (∀ r ∈ s.abandoned, r.1 ∈ files.flatten) ∧ (backend = .transactional → s.abandoned = []) := by
  have hunlanded : ∀ job, s.job = some job → (∀ r ∈ job.unlanded, r.1 ∈ files.flatten) ∧
      (backend = .transactional → job.unlanded = []) := by
    rintro ⟨progress, phase⟩ hjob
    have hinv := h.job _ hjob
    cases phase with
    | before i | counted => exact ⟨by simp [RestoreJob.unlanded], fun _ => rfl⟩
    | loading load =>
      have hload : LoadInvariant key backend files counts s.recorded s.rows progress load := hinv
      refine ⟨fun r hr => ?_, fun hb => by simp [RestoreJob.unlanded, (hload.grounded hb).2]⟩
      obtain ⟨a, ha, rfl⟩ := mem_map.mp hr
      exact hload.flight a ha
  cases hjob : s.job with
  | none =>
    simp only [abandoned, hjob, map_none, getD_none, append_nil]
    exact ⟨h.stray, h.grounded⟩
  | some job =>
    simp only [abandoned, hjob, map_some]
    obtain ⟨hfrom, hnone⟩ := hunlanded job hjob
    refine ⟨fun r hr => ?_, fun hb => by rw [h.grounded hb, hnone hb]; rfl⟩
    exact (mem_append.mp hr).elim (h.stray r) (hfrom r)

theorem ResumeInvariant.with_job {job} (h : ResumeInvariant key backend files counts s)
    {passes completed} (hjob : JobInvariant key backend files counts s.recorded s.rows job) :
    ResumeInvariant key backend files counts
      { s with job := some job, passes := passes, completed := completed } where
  record := h.record
  target := h.target
  stray := h.stray
  grounded := h.grounded
  job j hj := by
    cases hj
    exact hjob
  done := h.done

section

variable [DecidableEq κ] {sizes : ItemSizes α} {limits : LoadLimits}

omit [DecidableEq κ] in
theorem ResumeInvariant.load {s progress load} (h : ResumeInvariant key backend files counts s)
    (hjob : s.job = some ⟨progress, .loading load⟩) :
    LoadInvariant key backend files counts s.recorded s.rows progress load :=
  h.job _ hjob

theorem RestoreStep.resumeInvariant {event : RestoreEvent} {s s'}
    (hlength : files.length = counts.length)
    (hfits : ∀ j count, counts[j]? = some count → (fileAt files j).length ≤ count)
    (hstep : RestoreStep key sizes backend limits counts (ReadsFile files counts) event s s')
    (h : ResumeInvariant key backend files counts s) :
    ResumeInvariant key backend files counts s' := by
  cases hstep with
  | claim hrunning =>
    obtain ⟨hfrom, hnone⟩ := h.mem_abandoned
    refine ⟨h.record, h.target, hfrom, hnone, ?_, h.done⟩
    rintro job ⟨⟩
    exact upcoming_progressFromRecords s.recorded
  | crash =>
    obtain ⟨hfrom, hnone⟩ := h.mem_abandoned
    exact ⟨h.record, h.target, hfrom, hnone, by simp, h.done⟩
  | fail =>
    obtain ⟨hfrom, hnone⟩ := h.mem_abandoned
    exact ⟨h.record, h.target, hfrom, hnone, by simp, by simp⟩
  | skip hjob hcount hslot hcomplete =>
    have hup : Upcoming files counts s.recorded _ _ := h.job _ hjob
    exact h.with_job (hup.skip hfits h.record hcount hslot hcomplete)
  | openFile hjob hcount hslot hstart hfile hreads =>
    have hup : Upcoming files counts s.recorded _ _ := h.job _ hjob
    exact h.with_job (hup.open h.record hcount hslot hstart hfile hreads)
  | @sendChunk _ progress load n hjob hopen hn =>
    have hload := h.load hjob
    refine h.with_job ?_
    exact { hload with
      sent := .inl hn
      ended := fun hended => by simp [hopen] at hended
      batch := Nat.le_trans hload.batch (Nat.le_add_right _ _) }
  | @endStream _ progress load hjob hopen hverified hsent =>
    have hload := h.load hjob
    refine h.with_job ?_
    exact { hload with
      sent := .inl (Nat.le_refl _)
      ended := fun _ => ⟨rfl, hverified⟩
      batch := Nat.le_trans hload.batch hsent }
  | @commitBatch _ progress load n hbackend hrunning hjob hfull hfresh =>
    have hload := h.load hjob
    obtain ⟨hpos, hn, _⟩ := hfull
    have hbatch : load.batch = 0 := (hload.grounded hbackend).1
    refine ⟨hload.record hpos hn, h.target.commit (fun a ha => hload.mem_batchItems ha) hfresh
      (hload.appliedItems_batch hpos hn), h.stray, h.grounded, ?_, by simp [hrunning]⟩
    rintro job ⟨⟩
    have hnext : LoadInvariant key backend files counts _
        (s.rows ++ (load.batchItems n).map (·, load.number)) progress _ :=
      hload.advance hpos hn (hload.grounded hbackend).2
    rw [← hbatch] at hnext
    exact hnext
  | @flushBatch _ progress load n hbackend hrunning hjob hidle hfull =>
    have hload := h.load hjob
    refine h.with_job ?_
    exact { hload with
      batch := hfull.2.1
      flight := fun a ha => hload.mem_batchItems ha
      landed := fun a ha => .inl ha
      grounded := fun hb => by simp [hbackend] at hb }
  | @land _ progress load sooner later a rows hjob hin hlands =>
    have hload := h.load hjob
    have hbackend : backend ≠ .transactional := fun hb => by
      simpa [hin] using (hload.grounded hb).2
    have ha : a ∈ files.flatten := hload.flight a (by simp [hin])
    refine ⟨h.record, hlands.target hbackend ha h.target, h.stray, h.grounded, ?_,
      fun hdone => hlands.complete hbackend (h.done hdone)⟩
    rintro job ⟨⟩
    have hnext := hlands.load hbackend hload
    exact { hnext with
      flight := fun b hb => hload.flight b (by
        rw [hin]
        simp only [mem_append] at hb ⊢
        tauto)
      landed := fun b hb => by
        rcases hnext.landed b hb with hflight | hheld
        · rw [hin] at hflight
          simp only [mem_append, mem_cons] at hflight ⊢
          rcases hflight with hb | rfl | hb
          · exact .inl (.inl hb)
          · exact .inr (hlands.holds_self hbackend)
          · exact .inl (.inr hb)
        · exact .inr hheld
      grounded := fun hb => absurd hb hbackend }
  | @landStray _ sooner later row rows hin hlands =>
    have hbackend : backend ≠ .transactional := fun hb => by
      simpa [hin] using h.grounded hb
    have hrow : row.1 ∈ files.flatten := h.stray row (by simp [hin])
    refine ⟨h.record, hlands.target hbackend hrow h.target, fun r hr => h.stray r ?_,
      fun hb => absurd hb hbackend, fun job hjob => hlands.job hbackend (h.job job hjob),
      fun hdone => hlands.complete hbackend (h.done hdone)⟩
    rw [hin]
    simp only [mem_append] at hr ⊢
    tauto
  | @writeProgress _ progress load hrunning hjob hbatch hlanded =>
    have hload := h.load hjob
    refine ⟨hload.record hbatch hload.batch, ⟨h.target.origin, h.target.keys, fun a ha => ?_⟩,
      h.stray, h.grounded, ?_, by simp [hrunning]⟩
    · rw [hload.appliedItems_batch hbatch hload.batch] at ha
      rcases mem_append.mp ha with hold | hnew
      · exact h.target.held a hold
      · simpa [hlanded] using hload.landed a hnew
    · rintro job ⟨⟩
      exact hload.advance hbatch hload.batch hlanded
  | @emptyBatch _ progress load hrunning hjob hended happlied hwrote =>
    have hload := h.load hjob
    have hsame : appliedItems files (some (load.pass.file, load.applied)) =
        appliedItems files s.recorded := hload.continues.appliedItems_eq.symm
    refine ⟨?_, ⟨h.target.origin, h.target.keys, fun a ha => h.target.held a (hsame ▸ ha)⟩,
      h.stray, h.grounded, ?_, by simp [hrunning]⟩
    · rintro i n ⟨⟩
      exact ⟨hload.reads.1, hload.within, hload.exact⟩
    · rintro job ⟨⟩
      exact { hload with continues := .inl rfl, wrote := fun _ => rfl }
  | @closeFile _ progress load hjob hended happlied hwrote =>
    have hload := h.load hjob
    exact h.with_job (hload.close hended happlied hwrote)
  | @count _ progress hjob hcount =>
    have hup : Upcoming files counts s.recorded progress files.length :=
      hlength ▸ h.job _ hjob
    obtain ⟨happlied, hexact⟩ := hup.appliedItems_eq h.record
    refine h.with_job ?_
    exact h.target.complete happlied (hcount.trans (hexact.sum_eq hlength))
  | finish hrunning hjob =>
    exact ⟨h.record, h.target, h.stray, h.grounded, by simp, fun _ => h.job _ hjob⟩

section

variable (hfits : List.Forall₂ (fun file count => file.length ≤ count) files counts)
include hfits

theorem fits_fileAt
    (j count) (hcount : counts[j]? = some count) : (fileAt files j).length ≤ count := by
  induction hfits generalizing j with
  | nil => simp at hcount
  | @cons file first files counts hfile _ ih =>
    cases j with
    | zero =>
      cases hcount
      exact hfile
    | succ j => exact ih j hcount

theorem RestoreReachable.resumeInvariant {s}
    (h : RestoreReachable key sizes backend limits counts (ReadsFile files counts) s) :
    ResumeInvariant key backend files counts s := by
  induction h with
  | refl => exact resumeInvariant_initial
  | tail _ hstep ih =>
    obtain ⟨event, hstep⟩ := hstep
    exact hstep.resumeInvariant hfits.length_eq (fits_fileAt hfits) ih

end

variable (key sizes backend limits) in
/-- No data file has more items than its entry lists.  Then every run, whatever its chunks, batches,
crashes, failed reads and takeovers, keeps to this: the record names a prefix of the backup's items
all of which the target has, a job goes on right after it, and a DONE target is the backup. -/
theorem resume_exactly_once
    (hfits : List.Forall₂ (fun file count => file.length ≤ count) files counts) {s : RestoreState α}
    (h : RestoreReachable key sizes backend limits counts (ReadsFile files counts) s) :
    (∀ i n, s.recorded = some (i, n) → i < files.length ∧ n ≤ (fileAt files i).length) ∧
    appliedItems files s.recorded <+: files.flatten ∧
    (∀ a ∈ appliedItems files s.recorded, ∃ r ∈ s.rows, key r.1 = key a ∧ r.1 ∈ files.flatten ∧
      (backend = .transactional ∨ (files.flatten.map key).Nodup → r.1 = a)) ∧
    (∀ progress load, s.job = some ⟨progress, .loading load⟩ → appliedItems files s.recorded =
        (files.take load.pass.file).flatten ++ (fileAt files load.pass.file).take load.applied) ∧
    (s.status = .done →
      (s.rows.map Prod.fst).Perm files.flatten ∧ (files.flatten.map key).Nodup) := by
  have hinv := h.resumeInvariant hfits
  refine ⟨fun i n hrecorded => ?_, appliedItems_isPrefix_flatten files s.recorded, fun a ha => ?_,
    fun progress load hjob => ?_, fun hdone => ?_⟩
  · obtain ⟨hi, hn, _⟩ := hinv.record i n hrecorded
    exact ⟨hi, hn⟩
  · obtain ⟨r, hr, hkey, hsame⟩ := hinv.target.held a ha
    have hfrom := hinv.target.origin r hr
    refine ⟨r, hr, hkey, hfrom, fun hunique => hunique.elim hsame fun hnodup => ?_⟩
    exact inj_on_of_nodup_map hnodup hfrom
      ((appliedItems_isPrefix_flatten files s.recorded).subset ha) hkey
  · have hload : LoadInvariant key backend files counts s.recorded s.rows progress load :=
      hinv.job _ hjob
    exact hload.continues.appliedItems_eq
  · obtain ⟨hnodup, hcover⟩ := hinv.done hdone
    refine ⟨perm_of_cover hinv.target.keys ?_ ?_ hnodup, hnodup⟩
    · intro a ha
      obtain ⟨r, hr, hkey, _⟩ := hcover a ha
      exact ⟨r.1, mem_map_of_mem hr, hkey⟩
    · intro a ha
      obtain ⟨r, hr, rfl⟩ := mem_map.mp ha
      exact hinv.target.origin r hr

end

/-- Two files, and a crash inside the first. -/
theorem resume_exactly_once_crash :
    resumedDone.status = .done ∧ (resumedDone.rows.map Prod.fst).Perm [[7, 8], [9]].flatten := by
  have hrun := @resumedDone_run (ReadsFile [[7, 8], [9]] [2, 1])
    ⟨by decide, prefix_rfl, fun _ => ⟨rfl, rfl⟩⟩ ⟨by decide, prefix_rfl, fun _ => ⟨rfl, rfl⟩⟩
  have hfits : List.Forall₂ (fun (file : List Nat) count => file.length ≤ count) [[7, 8], [9]]
      [2, 1] := .cons (by decide) (.cons (by decide) .nil)
  obtain ⟨_, _, _, _, hdone⟩ := resume_exactly_once id .transactional anySize itemByItem hfits
    hrun.reachable
  exact ⟨rfl, (hdone rfl).1⟩

/-- A file of 83 items listed with 82: DONE without the last one. -/
theorem resume_loses_item : ∃ s, RestoreReachable id largeItems .transactional .released [82]
        (ReadsFile [List.range 83] [82]) s ∧
      s.status = .done ∧ 82 ∈ [List.range 83].flatten ∧ 82 ∉ s.rows.map Prod.fst := by
  refine ⟨overfullDone, (overfullDone_run ⟨by decide, prefix_rfl, by simp⟩).reachable, rfl, ?_, ?_⟩
  · simp
  · simp [overfullDone]

end ExtendDb
