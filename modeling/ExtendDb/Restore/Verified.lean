import Mathlib.Algebra.Group.Action.Defs
import ExtendDb.Restore.Job

/-!
# Which passes the restored rows were read in

Items are written while their file still decodes, and the size, the digest and the item count are
known only at the end of the stream.  A pass that resumes a file reads the items again that were
applied before, and skips them.
-/

namespace ExtendDb

open List Relation RestoreState RestoreJob

variable {α κ : Type}

/-- The record counts every item of the file as applied. -/
def RecordComplete (counts : List Nat) (recorded : Option (Nat × Nat)) (file : Nat) : Prop :=
  ∃ count, counts[file]? = some count ∧ startAt (recordedSlot recorded file count) count = none

/-- A pass over the row's file that read the item reached its verified end. -/
def RestoreState.Verified (s : RestoreState α) (opened : List (FilePass α)) (r : α × Nat) : Prop :=
  ∃ n ∈ s.completed, ∃ pass own, opened[n]? = some pass ∧ opened[r.2]? = some own ∧
    pass.file = own.file ∧ r.1 ∈ pass.items

/-- The rows of the target and the writes on their way to it. -/
def RestoreState.held (s : RestoreState α) : List (α × Nat) := s.rows ++ s.abandoned

/-- The pass that a step opens. -/
def opens (s s' : RestoreState α) : List (FilePass α) :=
  if s'.passes = s.passes then [] else
    match s'.job with
    | some ⟨_, .loading load⟩ => [load.pass]
    | _ => []

/-- A job that is cut short inside a file leaves the file open in the record, and a pass over a file
reads again what earlier passes over it have handed to the backend. -/
def Rereads (counts : List Nat) (event : RestoreEvent) (s : RestoreState α)
    (opened new : List (FilePass α)) : Prop :=
  (event = .claim ∨ event = .crash → ∀ progress load, s.job = some ⟨progress, .loading load⟩ →
    load.ended = false → ¬ RecordComplete counts s.recorded load.pass.file) ∧
  ∀ pass ∈ new, ∀ r ∈ s.held, ∀ own, opened[r.2]? = some own → own.file = pass.file →
    r.1 ∈ pass.items

section

variable [DecidableEq κ] (key : α → κ) (sizes : ItemSizes α) (backend : RestoreBackend)
  (limits : LoadLimits) (counts : List Nat) (reads : FilePass α → Prop)

/-- The runs whose steps all meet a condition, with the passes opened so far, by their numbers. -/
def ReadRun (P : RestoreEvent → RestoreState α → List (FilePass α) → List (FilePass α) → Prop)
    (s : RestoreState α) (opened : List (FilePass α)) : Prop :=
  ReflTransGen (fun l l' => ∃ event s',
    RestoreStep key sizes backend limits counts reads event l.1 s' ∧
      P event l.1 l.2 (opens l.1 s') ∧ l' = (s', l.2 ++ opens l.1 s'))
    (initial α, []) (s, opened)

end

/-! ## The invariant -/

/-- Everything held of the file was read in a pass that reached its verified end. -/
def RestoreState.FileSettled (s : RestoreState α) (opened : List (FilePass α)) (file : Nat) :
    Prop :=
  ∀ r ∈ s.held, ∀ own, opened[r.2]? = some own → own.file = file → s.Verified opened r

/-- The files before it are done with. -/
def LoadPhase.file (counts : List Nat) : LoadPhase α → Nat
  | .before i => i
  | .loading load => load.pass.file
  | .counted => counts.length

def Planned (counts : List Nat) (progress : List (Option Nat)) (file : Nat) : Prop :=
  ∃ count slot, counts[file]? = some count ∧ progress[file]? = some slot ∧
    startAt slot count = none

structure LoadFacts (counts : List Nat) (s : RestoreState α) (opened : List (FilePass α))
    (progress : List (Option Nat)) (load : FileLoad α) : Prop where
  pass : opened[load.number]? = some load.pass
  file : load.pass.file < counts.length
  ended : load.ended = true → load.number ∈ s.completed
  again : ∀ r ∈ s.held, ∀ own, opened[r.2]? = some own → own.file = load.pass.file →
    r.1 ∈ load.pass.items
  unplanned : ¬ Planned counts progress load.pass.file

structure ReadInvariant (counts : List Nat) (s : RestoreState α) (opened : List (FilePass α)) :
    Prop where
  length : opened.length = s.passes
  labelled : ∀ r ∈ s.held, ∃ own, opened[r.2]? = some own ∧ own.file < counts.length
  loading : ∀ progress load, s.job = some ⟨progress, .loading load⟩ →
    LoadFacts counts s opened progress load
  below : ∀ job, s.job = some job → ∀ f < job.phase.file counts, s.FileSettled opened f
  planned : ∀ job, s.job = some job → ∀ f, Planned counts job.progress f → s.FileSettled opened f
  recorded : ∀ f, RecordComplete counts s.recorded f → s.FileSettled opened f ∨
    ∃ progress load, s.job = some ⟨progress, .loading load⟩ ∧ load.pass.file = f
  done : s.status = .done → s.job = none ∧ ∀ f, s.FileSettled opened f

variable {counts : List Nat} {s s' : RestoreState α} {opened : List (FilePass α)}

theorem readInvariant_initial : ReadInvariant counts (initial α) [] := by
  constructor <;>
    simp [initial, held, abandoned, FileSettled]

theorem getElem?_extend {opened' : List (FilePass α)} (h : opened <+: opened') {n : Nat} {pass}
    (hn : opened[n]? = some pass) : opened'[n]? = some pass := by
  obtain ⟨later, rfl⟩ := h
  rw [getElem?_append_left (List.getElem?_eq_some_iff.mp hn).1]
  exact hn

theorem RestoreState.FileSettled.mono {f opened'} (h : s.FileSettled opened f)
    (hheld : ∀ r ∈ s'.held, r ∈ s.held ∨ ∃ own, opened'[r.2]? = some own ∧ own.file ≠ f)
    (hlabelled : ∀ r ∈ s.held, ∃ own, opened[r.2]? = some own) (hopened : opened <+: opened')
    (hcompleted : s.completed ⊆ s'.completed) : s'.FileSettled opened' f := by
  intro r hr own hown hfile
  rcases hheld r hr with hold | ⟨other, hother, hne⟩
  · obtain ⟨first, hfirst⟩ := hlabelled r hold
    cases (getElem?_extend hopened hfirst).symm.trans hown
    obtain ⟨n, hn, pass, own', hpass, hown', hsame, hitem⟩ := h r hold own hfirst hfile
    exact ⟨n, hcompleted hn, pass, own', getElem?_extend hopened hpass,
      getElem?_extend hopened hown', hsame, hitem⟩
  · cases hother.symm.trans hown
    exact absurd hfile hne

theorem complete_recorded {f last applied} (h : RecordComplete counts (some (last, applied)) f) :
    f ≤ last := by
  obtain ⟨count, -, hstart⟩ := h
  by_contra hlt
  have hslot : recordedSlot (some (last, applied)) f count = none := by
    simp only [recordedSlot]
    rw [if_neg (by omega), if_neg (by omega)]
  rw [hslot] at hstart
  cases hstart

theorem planned_progressFromRecords {recorded f}
    (h : Planned counts (progressFromRecords recorded counts) f) :
    RecordComplete counts recorded f := by
  obtain ⟨count, slot, hcount, hslot, hstart⟩ := h
  rw [progressFromRecords, getElem?_mapIdx, hcount, Option.map_some] at hslot
  exact ⟨count, hcount, Option.some.inj hslot ▸ hstart⟩

theorem LoadFacts.settled {progress load} (h : LoadFacts counts s opened progress load)
    (hended : load.ended = true) : s.FileSettled opened load.pass.file := fun r hr own hown hfile =>
  ⟨load.number, h.ended hended, load.pass, own, h.pass, hown, hfile.symm,
    h.again r hr own hown hfile⟩

namespace ReadInvariant

variable (h : ReadInvariant counts s opened)
include h

theorem owned (r) (hr : r ∈ s.held) : ∃ own, opened[r.2]? = some own := by
  obtain ⟨own, hown, -⟩ := h.labelled r hr
  exact ⟨own, hown⟩

/-- A job that ends, and the next one, find the complete files settled. -/
theorem settled_of_complete {event new} (hcut : event = .claim ∨ event = .crash)
    (hrereads : Rereads counts event s opened new) (f) (hf : RecordComplete counts s.recorded f) :
    s.FileSettled opened f := by
  rcases h.recorded f hf with hsettled | ⟨progress, load, hjob, rfl⟩
  · exact hsettled
  · cases hended : load.ended with
    | true => exact (h.loading progress load hjob).settled hended
    | false => exact absurd hf (hrereads.1 hcut progress load hjob hended)

/-- Nothing that is held changes, and no pass is opened. -/
theorem keep (hheld : s'.held ⊆ s.held) (hcompleted : s'.completed = s.completed)
    (f) (hf : s.FileSettled opened f) : s'.FileSettled opened f :=
  hf.mono (fun _ hr => .inl (hheld hr)) h.owned prefix_rfl (hcompleted ▸ List.Subset.refl _)

/-- The job goes on between two files, or ends. -/
theorem between (hheld : s'.held ⊆ s.held) (hcompleted : s'.completed = s.completed)
    (hpasses : s'.passes = s.passes)
    (hloading : ∀ progress load, s'.job ≠ some ⟨progress, .loading load⟩)
    (hbelow : ∀ job, s'.job = some job → ∀ f < job.phase.file counts, s.FileSettled opened f)
    (hplanned : ∀ job, s'.job = some job → ∀ f, Planned counts job.progress f →
      s.FileSettled opened f)
    (hrecorded : ∀ f, RecordComplete counts s'.recorded f → s.FileSettled opened f)
    (hdone : s'.status = .done → s'.job = none ∧ ∀ f, s.FileSettled opened f) :
    ReadInvariant counts s' opened where
  length := h.length.trans hpasses.symm
  labelled r hr := h.labelled r (hheld hr)
  loading progress load hjob := absurd hjob (hloading progress load)
  below job hjob f hf := h.keep hheld hcompleted f (hbelow job hjob f hf)
  planned job hjob f hf := h.keep hheld hcompleted f (hplanned job hjob f hf)
  recorded f hf := .inl (h.keep hheld hcompleted f (hrecorded f hf))
  done hs := ⟨(hdone hs).1, fun f => h.keep hheld hcompleted f ((hdone hs).2 f)⟩

/-- A step inside a file: what is new was read in its pass. -/
theorem within {progress load load'} (hjob : s.job = some ⟨progress, .loading load⟩)
    (hjob' : s'.job = some ⟨progress, .loading load'⟩) (hpass : load'.pass = load.pass)
    (hnumber : load'.number = load.number) (hpasses : s'.passes = s.passes)
    (hheld : ∀ r ∈ s'.held, r ∈ s.held ∨ r.2 = load.number ∧ r.1 ∈ load.pass.items)
    (hcompleted : s.completed ⊆ s'.completed) (hstatus : s'.status = s.status)
    (hrecorded : s'.recorded = s.recorded ∨ ∃ n, s'.recorded = some (load.pass.file, n))
    (hended : load'.ended = true → load.ended = true ∨ load.number ∈ s'.completed) :
    ReadInvariant counts s' opened := by
  have hload := h.loading progress load hjob
  have hkeep {f} (hne : f ≠ load.pass.file) (hf : s.FileSettled opened f) :
      s'.FileSettled opened f :=
    hf.mono (fun r hr => (hheld r hr).imp_right fun hown =>
      ⟨load.pass, by rw [hown.1]; exact hload.pass, hne.symm⟩) h.owned prefix_rfl hcompleted
  have hjobs {job} (hj : s'.job = some job) : job = ⟨progress, .loading load'⟩ :=
    Option.some.inj (hj.symm.trans hjob')
  refine ⟨h.length.trans hpasses.symm, fun r hr => ?_, fun p l hj => ?_, fun job hj f hf => ?_,
    fun job hj f hf => ?_, fun f hf => ?_, fun hs => ?_⟩
  · rcases hheld r hr with hold | hown
    · exact h.labelled r hold
    · exact ⟨load.pass, by rw [hown.1]; exact hload.pass, hload.file⟩
  · cases hjobs hj
    refine ⟨by rw [hnumber, hpass]; exact hload.pass, by rw [hpass]; exact hload.file,
      fun hl => ?_, fun r hr own hown hfile => ?_, by rw [hpass]; exact hload.unplanned⟩
    · rw [hnumber]
      exact (hended hl).elim (fun hold => hcompleted (hload.ended hold)) id
    · rw [hpass] at hfile ⊢
      exact (hheld r hr).elim (fun hold => hload.again r hold own hown hfile) fun hnew => hnew.2
  · cases hjobs hj
    change f < load'.pass.file at hf
    rw [hpass] at hf
    exact hkeep (Nat.ne_of_lt hf) (h.below _ hjob f hf)
  · cases hjobs hj
    exact hkeep (fun heq => hload.unplanned (heq ▸ hf)) (h.planned _ hjob f hf)
  · by_cases heq : f = load.pass.file
    · exact .inr ⟨progress, load', hjob', by rw [hpass, heq]⟩
    · refine .inl (hkeep heq ?_)
      rcases hrecorded with hsame | ⟨n, hnew⟩
      · rcases h.recorded f (hsame ▸ hf) with hsettled | ⟨p, l, hj, hfile⟩
        · exact hsettled
        · cases hjob.symm.trans hj
          exact absurd hfile.symm heq
      · rw [hnew] at hf
        exact h.below _ hjob f (Nat.lt_of_le_of_ne (complete_recorded hf) heq)
  · have hnone := (h.done (hstatus ▸ hs)).1
    rw [hjob] at hnone
    cases hnone

end ReadInvariant

theorem Lands.mem [DecidableEq κ] {key : α → κ} {row rows rows'} (h : Lands key row rows rows') :
    ∀ r ∈ rows', r ∈ rows ∨ r = row := by
  intro r hr
  rcases h with rfl | ⟨rfl, -⟩
  · rcases mem_append.mp hr with hkept | hnew
    · exact .inl (mem_filter.mp hkept).1
    · exact .inr (mem_singleton.mp hnew)
  · exact .inl hr

theorem slice_subset (items : List α) (start stop) : slice items start stop ⊆ items :=
  List.Subset.trans (drop_subset _ _) (take_subset _ _)

variable [DecidableEq κ] {key : α → κ} {sizes : ItemSizes α} {backend : RestoreBackend}
  {limits : LoadLimits} {reads : FilePass α → Prop} {event : RestoreEvent}

section

variable (hstep : RestoreStep key sizes backend limits counts reads event s s')
include hstep

theorem RestoreStep.readInvariant (hrereads : Rereads counts event s opened (opens s s'))
    (h : ReadInvariant counts s opened) (hstatus : s'.status ≠ .failed) :
    ReadInvariant counts s' (opened ++ opens s s') := by
  have hopens (heq : s'.passes = s.passes) : opened ++ opens s s' = opened := by
    rw [opens, if_pos heq, append_nil]
  cases hstep with
  | claim hrunning =>
    rw [hopens rfl]
    have hcomplete := h.settled_of_complete (.inl rfl) hrereads
    refine h.between (by simp [held, abandoned, unlanded]) rfl rfl (by simp)
      (fun job hjob f hf => ?_) (fun job hjob f hf => ?_) hcomplete (by simp [hrunning])
    · cases hjob
      exact absurd hf (Nat.not_lt_zero f)
    · cases hjob
      exact hcomplete f (planned_progressFromRecords hf)
  | crash =>
    rw [hopens rfl]
    exact h.between (by simp [held, abandoned]) rfl rfl (by simp) (by simp) (by simp)
      (h.settled_of_complete (.inr rfl) hrereads) fun hs => ⟨rfl, (h.done hs).2⟩
  | fail => exact absurd rfl hstatus
  | @skip _ progress i count slot hjob hcount hslot hcomplete =>
    rw [hopens rfl]
    have hplanned : ∀ f, Planned counts progress f → s.FileSettled opened f := h.planned _ hjob
    refine h.between (by simp [held, abandoned, hjob, unlanded]) rfl rfl (by simp)
      (fun job hj f hf => ?_) (fun job hj => ?_) (fun f hf => ?_) fun hs => ?_
    · cases hj
      rcases Nat.lt_succ_iff_lt_or_eq.mp hf with hlt | rfl
      · exact h.below _ hjob f hlt
      · exact hplanned f ⟨count, slot, hcount, hslot, hcomplete⟩
    · cases hj
      exact hplanned
    · exact (h.recorded f hf).resolve_right (by simp [hjob])
    · cases hjob.symm.trans (h.done hs).1
  | @openFile _ progress i count start slot hjob hcount hslot hstart pass hfile hreads =>
    have hnew : opens s { s with
        job := some ⟨progress, .loading ⟨pass, s.passes, start, start, false, false, 0, []⟩⟩
        passes := s.passes + 1 } = [pass] := by
      rw [opens, if_neg (Nat.succ_ne_self _)]
    rw [hnew] at hrereads ⊢
    have hheld : held { s with
        job := some ⟨progress, .loading ⟨pass, s.passes, start, start, false, false, 0, []⟩⟩
        passes := s.passes + 1 } = s.held := by
      simp [held, abandoned, hjob, unlanded]
    have hold (n own) (hn : opened[n]? = some own) : (opened ++ [pass])[n]? = some own :=
      getElem?_extend (prefix_append _ _) hn
    have hkeep (f) (hf : s.FileSettled opened f) : RestoreState.FileSettled { s with
        job := some ⟨progress, .loading ⟨pass, s.passes, start, start, false, false, 0, []⟩⟩
        passes := s.passes + 1 } (opened ++ [pass]) f :=
      hf.mono (fun r hr => .inl (hheld ▸ hr)) h.owned (prefix_append opened [pass])
        (List.Subset.refl _)
    refine ⟨by rw [length_append, h.length]; rfl, fun r hr => ?_, fun p l hj => ?_,
      fun job hj f hf => ?_, fun job hj f hf => ?_, fun f hf => ?_, fun hs => ?_⟩
    · obtain ⟨own, hown, hlt⟩ := h.labelled r (hheld ▸ hr)
      exact ⟨own, hold _ _ hown, hlt⟩
    · cases hj
      refine ⟨?_, ?_, by simp, fun r hr own hown hsame => ?_, ?_⟩
      · rw [getElem?_append_right (Nat.le_of_eq h.length), h.length, Nat.sub_self]
        rfl
      · rw [hfile]
        exact (List.getElem?_eq_some_iff.mp hcount).1
      · obtain ⟨own', hown'⟩ := h.owned r (hheld ▸ hr)
        cases (hold _ _ hown').symm.trans hown
        exact hrereads.2 pass (mem_singleton_self pass) r (hheld ▸ hr) own hown' hsame
      · rintro ⟨count', slot', hcount', hslot', hnone⟩
        rw [hfile] at hcount' hslot'
        cases hcount.symm.trans hcount'
        cases hslot.symm.trans hslot'
        cases hstart.symm.trans hnone
    · cases hj
      exact hkeep f (h.below _ hjob f (hfile ▸ hf))
    · cases hj
      exact hkeep f (h.planned _ hjob f hf)
    · exact .inl (hkeep f ((h.recorded f hf).resolve_right (by simp [hjob])))
    · cases hjob.symm.trans (h.done hs).1
  | sendChunk hjob | emptyBatch _ hjob =>
    rw [hopens rfl]
    exact h.within hjob rfl rfl rfl rfl (fun r hr => .inl (by
      simpa [held, abandoned, hjob, unlanded] using hr)) (List.Subset.refl _) rfl
      (by simp) .inl
  | writeProgress _ hjob _ hlanded =>
    rw [hopens rfl]
    exact h.within hjob rfl rfl rfl rfl (fun r hr => .inl (by
      simpa [held, abandoned, hjob, unlanded] using hr)) (List.Subset.refl _) rfl
      (.inr ⟨_, rfl⟩) .inl
  | endStream hjob =>
    rw [hopens rfl]
    exact h.within hjob rfl rfl rfl rfl (fun r hr => .inl (by
      simpa [held, abandoned, hjob, unlanded] using hr)) (subset_cons_self _ _) rfl
      (.inl rfl) fun _ => .inr (.head _)
  | @commitBatch _ progress load n _ _ hjob =>
    rw [hopens rfl]
    refine h.within hjob rfl rfl rfl rfl (fun r hr => ?_) (List.Subset.refl _) rfl
      (.inr ⟨_, rfl⟩) .inl
    simp only [held, abandoned, hjob, unlanded, mem_append, mem_map, Option.map_some,
      Option.getD_some] at hr ⊢
    rcases hr with (hrow | ⟨a, ha, rfl⟩) | hr
    · exact .inl (.inl hrow)
    · exact .inr ⟨rfl, slice_subset _ _ _ ha⟩
    · exact .inl (.inr hr)
  | @flushBatch _ progress load n _ _ hjob =>
    rw [hopens rfl]
    refine h.within hjob rfl rfl rfl rfl (fun r hr => ?_) (List.Subset.refl _) rfl (.inl rfl) .inl
    simp only [held, abandoned, hjob, unlanded, mem_append, mem_map, Option.map_some,
      Option.getD_some] at hr ⊢
    rcases hr with hrow | hr | ⟨a, ha, rfl⟩
    · exact .inl (.inl hrow)
    · exact .inl (.inr (.inl hr))
    · exact .inr ⟨rfl, slice_subset _ _ _ ha⟩
  | @land _ progress load sooner later a rows hjob hin hlands =>
    rw [hopens rfl]
    refine h.within hjob rfl rfl rfl rfl (fun r hr => .inl ?_) (List.Subset.refl _) rfl
      (.inl rfl) .inl
    simp only [held, abandoned, hjob, unlanded, mem_append, mem_map, Option.map_some,
      Option.getD_some, hin, mem_cons] at hr ⊢
    rcases hr with hrow | hr | ⟨b, hb, rfl⟩
    · rcases hlands.mem r hrow with hold | rfl
      · exact .inl hold
      · exact .inr (.inr ⟨a, .inr (.inl rfl), rfl⟩)
    · exact .inr (.inl hr)
    · exact .inr (.inr ⟨b, by tauto, rfl⟩)
  | @landStray _ sooner later row rows hin hlands =>
    rw [hopens rfl]
    have hheld : held { s with rows := rows, stray := sooner ++ later } ⊆ s.held := by
      intro r hr
      simp only [held, abandoned, mem_append, hin, mem_cons] at hr ⊢
      rcases hr with hrow | hr
      · rcases hlands.mem r hrow with hold | rfl
        · exact .inl hold
        · exact .inr (.inl (.inr (.inl rfl)))
      · tauto
    have hkeep : ∀ f, s.FileSettled opened f → RestoreState.FileSettled
        { s with rows := rows, stray := sooner ++ later } opened f := h.keep hheld rfl
    refine ⟨h.length, fun r hr => h.labelled r (hheld hr), fun p l hj => ?_,
      fun job hj f hf => hkeep f (h.below job hj f hf),
      fun job hj f hf => hkeep f (h.planned job hj f hf),
      fun f hf => (h.recorded f hf).imp_left (hkeep f),
      fun hs => ⟨(h.done hs).1, fun f => hkeep f ((h.done hs).2 f)⟩⟩
    have hload := h.loading p l hj
    exact ⟨hload.pass, hload.file, hload.ended, fun r hr => hload.again r (hheld hr),
      hload.unplanned⟩
  | @closeFile _ progress load hjob hended happlied hwrote =>
    rw [hopens rfl]
    have hsettled := (h.loading _ _ hjob).settled hended
    refine h.between (by simp [held, abandoned, unlanded]) rfl rfl (by simp)
      (fun job hj f hf => ?_) (fun job hj => ?_) (fun f hf => ?_) fun hs => ?_
    · cases hj
      rcases Nat.lt_succ_iff_lt_or_eq.mp hf with hlt | rfl
      · exact h.below _ hjob f hlt
      · exact hsettled
    · cases hj
      exact h.planned ⟨progress, .loading load⟩ hjob
    · rcases h.recorded f hf with hf | ⟨p, l, hj, rfl⟩
      · exact hf
      · cases hjob.symm.trans hj
        exact hsettled
    · cases hjob.symm.trans (h.done hs).1
  | @count _ progress hjob hcount =>
    rw [hopens rfl]
    refine h.between (by simp [held, abandoned, hjob, unlanded]) rfl rfl (by simp)
      (fun job hj f hf => ?_) (fun job hj => ?_) (fun f hf => ?_) fun hs => ?_
    · cases hj
      exact h.below _ hjob f hf
    · cases hj
      exact h.planned ⟨progress, .before counts.length⟩ hjob
    · exact (h.recorded f hf).resolve_right (by simp [hjob])
    · cases hjob.symm.trans (h.done hs).1
  | @finish _ progress hrunning hjob =>
    rw [hopens rfl]
    have hall (f) : s.FileSettled opened f := by
      intro r hr own hown hfile
      obtain ⟨own', hown', hlt⟩ := h.labelled r hr
      cases hown'.symm.trans hown
      exact h.below _ hjob f (hfile ▸ hlt) r hr own hown hfile
    exact h.between (by simp [held, abandoned]) rfl rfl (by simp) (by simp) (by simp)
      (fun f _ => hall f) fun _ => ⟨rfl, hall⟩

theorem RestoreStep.failed (h : s.status = .failed) : s'.status = .failed := by
  cases hstep <;> simp_all

end

theorem ReadRun.reachable {P} (h : ReadRun key sizes backend limits counts reads P s opened) :
    RestoreReachable key sizes backend limits counts reads s :=
  h.lift Prod.fst fun _ _ ⟨event, _, hstep, _, heq⟩ => ⟨event, heq ▸ hstep⟩

theorem ReadRun.readInvariant
    (h : ReadRun key sizes backend limits counts reads (Rereads counts) s opened) :
    s.status = .failed ∨ ReadInvariant counts s opened := by
  generalize hstart : (s, opened) = l at h
  unfold ReadRun at h
  rw [hstart] at h
  suffices hall : l.1.status = .failed ∨ ReadInvariant counts l.1 l.2 by
    rw [← hstart] at hall
    exact hall
  clear hstart
  induction h with
  | refl => exact .inr readInvariant_initial
  | @tail l l' _ hstep ih =>
    obtain ⟨event, s', hstep, hrereads, rfl⟩ := hstep
    rcases ih with hfailed | hinv
    · exact .inl (hstep.failed hfailed)
    · by_cases hfailed : s'.status = .failed
      · exact .inl hfailed
      · exact .inr (hstep.readInvariant hrereads hinv hfailed)

/-- In every run in which a file that is cut short stays open in the record and is read again as it
was, DONE means that every row was read in a pass over its file that reached the verified end of the
stream. -/
theorem done_rows_verified {s : RestoreState α} {opened : List (FilePass α)}
    (h : ReadRun key sizes backend limits counts reads (Rereads counts) s opened)
    (hdone : s.status = .done) : ∀ r ∈ s.rows, s.Verified opened r := by
  intro r hr
  rcases h.readInvariant with hfailed | hinv
  · rw [hdone] at hfailed
    cases hfailed
  · obtain ⟨own, hown, -⟩ := hinv.labelled r (mem_append_left _ hr)
    exact (hinv.done hdone).2 own.file r (mem_append_left _ hr) own hown rfl

/-! ## A file that is resumed -/

/-- Every item closes a chunk and a batch. -/
def itemByItem : LoadLimits := ⟨1, 1000, 1, 1000⟩

def anySize : ItemSizes Nat := ⟨fun _ => 1, fun _ => 1⟩

def resumedDone : RestoreState Nat where
  status := .done
  recorded := some (1, 1)
  rows := [(7, 0), (8, 1), (9, 2)]
  job := none
  stray := []
  passes := 3
  completed := [2, 1]

theorem rereads_work {s s' : RestoreState α} (h : s'.passes = s.passes) :
    Rereads counts .work s opened (opens s s') := by
  rw [opens, if_pos h]
  exact ⟨by simp, by simp⟩

theorem rereads_cut {s s' : RestoreState α} (h : s'.passes = s.passes)
    (hjob : ∀ progress load, s.job = some ⟨progress, .loading load⟩ →
      ¬ RecordComplete counts s.recorded load.pass.file) :
    Rereads counts event s opened (opens s s') := by
  rw [opens, if_pos h]
  exact ⟨fun _ progress load hload _ => hjob progress load hload, by simp⟩

theorem rereads_open {s s' : RestoreState α} {progress load}
    (hjob : s'.job = some ⟨progress, .loading load⟩)
    (h : ∀ r ∈ s.held, r.1 ∈ load.pass.items ∨
      opened[r.2]?.all (fun own => decide (own.file ≠ load.pass.file)) = true) :
    Rereads counts .work s opened (opens s s') := by
  refine ⟨by simp, fun pass hpass r hr own hown hfile => ?_⟩
  have hopened : pass = load.pass := by
    rw [opens, hjob] at hpass
    split at hpass
    · cases hpass
    · exact mem_singleton.mp hpass
  rw [hopened] at hfile ⊢
  exact (h r hr).resolve_right (by simp [hown, hfile])

/-- The first of two files is cut short behind its first item. -/
def cutShort : RestoreState Nat where
  status := .running
  recorded := some (0, 1)
  rows := [(7, 0)]
  job := none
  stray := []
  passes := 1
  completed := []

theorem cutShort_run {reads} (hfirst : reads ⟨0, [7, 8], true⟩) :
    ReadRun id anySize .transactional itemByItem [2, 1] reads (Rereads [2, 1]) cutShort
      [⟨0, [7, 8], true⟩] := by
  refine .head ⟨_, _, .claim rfl, rereads_cut rfl (fun _ _ h => by cases h), rfl⟩ ?_
  refine .head ⟨_, _, .openFile rfl rfl rfl rfl rfl hfirst, rereads_open rfl (by decide), rfl⟩ ?_
  refine .head ⟨_, _, .sendChunk (n := 1) rfl rfl (by decide) ⟨rfl, by decide⟩, rereads_work rfl,
    rfl⟩ ?_
  refine .head ⟨_, _, .commitBatch (n := 1) rfl rfl rfl ⟨by decide, by decide, by decide, .inl rfl⟩
    (by decide), rereads_work rfl, rfl⟩ ?_
  refine .single ⟨_, _, .crash, rereads_cut rfl fun _ _ hjob => ?_, rfl⟩
  cases hjob
  rintro ⟨_, hcount, hstart⟩
  cases hcount
  cases hstart

theorem resumedDone_run {reads} (hfirst : reads ⟨0, [7, 8], true⟩)
    (hsecond : reads ⟨1, [9], true⟩) :
    ReadRun id anySize .transactional itemByItem [2, 1] reads (Rereads [2, 1]) resumedDone
      [⟨0, [7, 8], true⟩, ⟨0, [7, 8], true⟩, ⟨1, [9], true⟩] := by
  refine (cutShort_run hfirst).trans ?_
  refine .head ⟨_, _, .claim rfl, rereads_cut rfl (fun _ _ h => by cases h), rfl⟩ ?_
  refine .head ⟨_, _, .openFile rfl rfl rfl rfl rfl hfirst, rereads_open rfl (by decide), rfl⟩ ?_
  refine .head ⟨_, _, .endStream rfl rfl rfl (by decide), rereads_work rfl, rfl⟩ ?_
  refine .head ⟨_, _, .commitBatch (n := 1) rfl rfl rfl ⟨by decide, by decide, by decide, .inl rfl⟩
    (by decide), rereads_work rfl, rfl⟩ ?_
  refine .head ⟨_, _, .closeFile rfl rfl rfl rfl, rereads_work rfl, rfl⟩ ?_
  refine .head ⟨_, _, .openFile rfl rfl rfl rfl rfl hsecond, rereads_open rfl (by decide), rfl⟩ ?_
  refine .head ⟨_, _, .endStream rfl rfl rfl (by decide), rereads_work rfl, rfl⟩ ?_
  refine .head ⟨_, _, .commitBatch (n := 1) rfl rfl rfl ⟨by decide, by decide, by decide, .inl rfl⟩
    (by decide), rereads_work rfl, rfl⟩ ?_
  refine .head ⟨_, _, .closeFile rfl rfl rfl rfl, rereads_work rfl, rfl⟩ ?_
  refine .head ⟨_, _, .count rfl rfl, rereads_work rfl, rfl⟩ ?_
  exact .single ⟨_, _, .finish rfl rfl, rereads_work rfl, rfl⟩

theorem done_rows_verified_resumed : ∃ opened, resumedDone.rows = [(7, 0), (8, 1), (9, 2)] ∧
    0 ∉ resumedDone.completed ∧ ∀ r ∈ resumedDone.rows, resumedDone.Verified opened r := by
  have hrun := @resumedDone_run (fun pass => pass.verified = true →
    [2, 1][pass.file]? = some pass.items.length) (fun _ => rfl) fun _ => rfl
  exact ⟨_, rfl, by decide, done_rows_verified hrun rfl⟩

/-- Items of 400 KiB, so that 82 of them close a chunk and a batch. -/
def largeItems : ItemSizes Nat := ⟨fun _ => 409600, fun _ => 409600⟩

theorem length_slice (items : List α) (start n) (h : start + n ≤ items.length) :
    (slice items start (start + n)).length = n := by
  rw [slice, length_drop, length_take]
  omega

theorem closes_largeItems (items : List Nat) (n) (h : n ≤ items.length) (hn : n ≤ 83) (maxItems)
    (hmax : 1000 ≤ maxItems) :
    closes (fun _ => 409600) maxItems (32 * 1024 * 1024) (slice items 0 (0 + n)) =
      decide (82 ≤ n) := by
  have hlength := length_slice items 0 n (by omega)
  rw [closes, map_const', sum_replicate, smul_eq_mul, Bool.eq_iff_iff]
  simp only [Bool.or_eq_true, decide_eq_true_eq]
  omega

def overfullLoad (sent applied : Nat) (wrote : Bool) : FileLoad Nat where
  pass := ⟨0, List.range 83, false⟩
  number := 0
  sent := sent
  applied := applied
  ended := false
  wrote := wrote
  batch := 0
  inFlight := []

def overfullDone : RestoreState Nat where
  status := .done
  recorded := some (0, 82)
  rows := (List.range 82).map (·, 0)
  job := none
  stray := []
  passes := 1
  completed := []

/-- The chunk and the batch close at the item count, the job ends before the stream does, and the
next one skips the file. -/
theorem overfullDone_run {reads} (hreads : reads ⟨0, range 83, false⟩) :
    ReadRun id largeItems .transactional .released [82] reads (fun _ _ _ _ => True) overfullDone
      [⟨0, range 83, false⟩] := by
  have hchunk : ChunkFull largeItems .released (overfullLoad 0 0 false) 82 :=
    ⟨closes_largeItems _ _ (by simp [overfullLoad]) (by omega) _ (by decide),
      fun m hm => (closes_largeItems _ m (by simp [overfullLoad]; omega) (by omega) _
        (by decide)).trans (by simp; omega)⟩
  have hbatch : BatchFull largeItems .released (overfullLoad 82 0 false) 82 :=
    ⟨by omega, by simp [overfullLoad],
      fun m hm => (closes_largeItems _ m (by simp [overfullLoad]; omega) (by omega) _
        (by decide)).trans (by simp; omega),
      .inl (closes_largeItems _ _ (by simp [overfullLoad]) (by omega) _ (by decide))⟩
  have hitems : (overfullLoad 82 0 false).batchItems 82 = range 82 := by
    simp [FileLoad.batchItems, slice, overfullLoad]
  have hfresh : ((([] : List (Nat × Nat)).map Prod.fst ++
      (overfullLoad 82 0 false).batchItems 82).map id).Nodup := by
    rw [hitems]
    simpa using nodup_range
  refine .head ⟨_, _, .claim rfl, trivial, rfl⟩ ?_
  refine .head ⟨_, _, .openFile rfl rfl rfl rfl rfl hreads, trivial, rfl⟩ ?_
  refine .head ⟨_, _, .sendChunk rfl rfl (by simp) hchunk, trivial, rfl⟩ ?_
  refine .head ⟨_, _, .commitBatch rfl rfl rfl hbatch hfresh, trivial, rfl⟩ ?_
  refine .head ⟨_, _, .crash, trivial, rfl⟩ ?_
  refine .head ⟨_, _, .claim rfl, trivial, rfl⟩ ?_
  refine .head ⟨_, _, .skip rfl rfl rfl rfl, trivial, rfl⟩ ?_
  refine .head ⟨_, _, .count rfl (by simp [initial, FileLoad.batchItems, slice]), trivial, rfl⟩ ?_
  exact .single ⟨_, _, .finish rfl rfl, trivial, rfl⟩

/-- The record of a file whose stream never ended verified is DONE. -/
theorem done_rows_unverified : ∃ s opened, ReadRun id largeItems .transactional .released [82]
        (fun pass => pass.verified = true → [82][pass.file]? = some pass.items.length)
        (fun _ _ _ _ => True) s opened ∧
      s.status = .done ∧ ∃ r ∈ s.rows, ¬ s.Verified opened r :=
  ⟨overfullDone, _, overfullDone_run (by simp), rfl, (0, 0), by simp [overfullDone],
    by simp [Verified, overfullDone]⟩

end ExtendDb
