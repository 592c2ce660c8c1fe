import Mathlib.Data.List.Lex

/-!
# The life of a store-backed backup

A create job uploads the data files, the sidecar and the other documents and last the manifest, and
then writes AVAILABLE; a failing job writes FAILED and deletes its prefix only when that write was
its own.
-/

namespace ExtendDb

open List Function Option

inductive BackupStatus where
  | creating
  | available
  | failed
  | deleting
  | deleted
deriving DecidableEq

structure BackupRow where
  status : BackupStatus
  generation : Nat
deriving DecidableEq

inductive StorePut where
  | dataFile (index size : Nat)
  | sidecar
  /-- The manifest, with the recorded sizes of the data files it names. -/
  | manifest (entries : List Nat)
deriving DecidableEq

/-- The create job before its status write. -/
inductive Upload where
  | notStarted
  /-- The claim's generation and the sizes the store reported so far. -/
  | dataFiles (generation : Nat) (entries : List Nat)
  /-- The data files, the sidecar and the other documents are in the store. -/
  | documents (generation : Nat) (entries : List Nat)
  | ended
deriving DecidableEq

/-- Where a call is: a create job from its status write on, a reconciler's takeover, or a deletion. -/
inductive BackupCall where
  | idle
  /-- `probe_manifest` before each of its three reads. -/
  | probing (generation : Nat)
  | readManifest (generation : Nat) (entries : List Nat)
  | readSidecar (generation : Nat) (entries : List Nat)
  /-- `write_status` before its conditional write, and before the re-read after an unknown outcome;
  the flag says whether the prefix is deleted after a match. -/
  | writing (generation : Nat) (next : BackupStatus) (attempt : Nat) (cleans : Bool)
  | rereading (generation : Nat) (next : BackupStatus) (attempt : Nat) (cleans : Bool)
  | matched (generation : Nat) (next : BackupStatus) (cleans : Bool)
  /-- Entitled to `delete_prefix`. -/
  | deleting
  | finished
deriving DecidableEq

structure BackupWorld where
  row : Option BackupRow
  files : Nat → Option Nat
  sidecar : Bool
  manifest : Option (List Nat)
  /-- Puts that failed or were given up and can still land. -/
  late : List StorePut
  upload : Upload
  calls : Nat → BackupCall
  generations : List Nat
  /-- The claims whose status write took effect, and those `write_status` answered Matched. -/
  effects : List Nat
  answered : List Nat
  deletionStarted : Bool

namespace BackupWorld

def initial : BackupWorld where
  row := none
  files _ := none
  sidecar := false
  manifest := none
  late := []
  upload := .notStarted
  calls _ := .idle
  generations := []
  effects := []
  answered := []
  deletionStarted := false

def goOn (s : BackupWorld) (c : Nat) (call : BackupCall) : BackupWorld :=
  { s with calls := update s.calls c call }

def land (s : BackupWorld) : StorePut → BackupWorld
  | .dataFile index size => { s with files := update s.files index (some size) }
  | .sidecar => { s with sidecar := true }
  | .manifest entries => { s with manifest := some entries }

def FilesMatch (s : BackupWorld) (entries : List Nat) : Prop :=
  ∀ i size, entries[i]? = some size → s.files i = some size

def Complete (s : BackupWorld) : Prop :=
  ∃ entries, s.manifest = some entries ∧ s.sidecar = true ∧ s.FilesMatch entries

end BackupWorld

open BackupWorld in
inductive BackupStep : BackupWorld → BackupWorld → Prop where
  | create {s g} (hnew : s.upload = .notStarted) : BackupStep s { s with
        row := some ⟨.creating, g⟩
        upload := .dataFiles g []
        generations := [g] }
  | putFile {s g size entries} (hjob : s.upload = .dataFiles g entries) :
      BackupStep s { s.land (.dataFile entries.length size) with
        upload := .dataFiles g (entries ++ [size]) }
  | putSidecar {s g entries} (hjob : s.upload = .dataFiles g entries) :
      BackupStep s { s.land .sidecar with upload := .documents g entries }
  | putManifest {s g entries} (hjob : s.upload = .documents g entries) :
      BackupStep s ({ s.land (.manifest entries) with upload := .ended }.goOn 0
        (.writing g .available 0 false))
  -- a put fails or is given up; it may land all the same, a data file with any size
  | uploadFails {s g entries late call} (hjob : s.upload = .dataFiles g entries)
      (hlate : ∀ p ∈ late, ∀ entries', p ≠ .manifest entries')
      (hcall : call = .writing g .failed 0 true ∨ call = .writing g .failed 0 false ∨
        call = .finished) : BackupStep s ({ s with late := late, upload := .ended }.goOn 0 call)
  | manifestFails {s g entries late call} (hjob : s.upload = .documents g entries)
      (hlate : late = [] ∨ late = [.manifest entries])
      (hcall : call = .writing g .failed 0 true ∨ call = .writing g .failed 0 false ∨
        call = .finished) : BackupStep s ({ s with late := late, upload := .ended }.goOn 0 call)
  | landLate {s sooner later p} (hin : s.late = sooner ++ p :: later) :
      BackupStep s { s.land p with late := sooner ++ later }
  -- `claim_dead_backup`
  | takeOver {s c g g'} (hidle : s.calls c = .idle) (hcaller : c ≠ 0)
      (hrow : s.row = some ⟨.creating, g'⟩) (hfresh : g ∉ s.generations) : BackupStep s ({ s with
        row := some ⟨.creating, g⟩
        generations := g :: s.generations }.goOn c (.probing g))
  | probeManifest {s c g entries} (hcall : s.calls c = .probing g)
      (hmanifest : s.manifest = some entries) : BackupStep s (s.goOn c (.readManifest g entries))
  | probeSidecar {s c g entries} (hcall : s.calls c = .readManifest g entries)
      (hsidecar : s.sidecar = true) : BackupStep s (s.goOn c (.readSidecar g entries))
  | probeComplete {s c g entries} (hcall : s.calls c = .readSidecar g entries)
      (hfiles : s.FilesMatch entries) : BackupStep s (s.goOn c (.writing g .available 0 false))
  | probeIncomplete {s c g entries}
      (hcall : s.calls c = .probing g ∨ s.calls c = .readManifest g entries ∨
        s.calls c = .readSidecar g entries) : BackupStep s (s.goOn c (.writing g .failed 0 false))
  -- the conditional write takes effect; the answer is Matched or unknown
  | statusWritten {s c g attempt next cleans} (hcall : s.calls c = .writing g next attempt cleans)
      (hif : s.row = some ⟨.creating, g⟩) : BackupStep s ({ s with
        row := some ⟨next, g⟩
        effects := g :: s.effects
        answered := g :: s.answered }.goOn c (.matched g next cleans))
  | statusWrittenUnknown {s c g attempt next cleans}
      (hcall : s.calls c = .writing g next attempt cleans) (hif : s.row = some ⟨.creating, g⟩) :
      BackupStep s ({ s with
        row := some ⟨next, g⟩
        effects := g :: s.effects }.goOn c (.rereading g next attempt cleans))
  -- it never takes effect
  | statusUnknown {s c g attempt next cleans} (hcall : s.calls c = .writing g next attempt cleans) :
      BackupStep s (s.goOn c (.rereading g next attempt cleans))
  | rereadMatched {s c g attempt next cleans} (hcall : s.calls c = .rereading g next attempt cleans)
      (hrow : s.row = some ⟨next, g⟩) :
      BackupStep s ({ s with answered := g :: s.answered }.goOn c (.matched g next cleans))
  | rereadRetry {s c g next cleans} (hcall : s.calls c = .rereading g next 0 cleans)
      (hrow : s.row = some ⟨.creating, g⟩) : BackupStep s (s.goOn c (.writing g next 1 cleans))
  -- a settled write ends the call, as do every other answer, an error and a crash
  | stop {s c} (hcall : s.calls c ≠ .idle) : BackupStep s (s.goOn c .finished)
  -- `fail_row` after its FAILED write matched
  | failRow {s c g} (hcall : s.calls c = .matched g .failed true) :
      BackupStep s (s.goOn c .deleting)
  | startBackupDelete {s c g} (hidle : s.calls c = .idle) (hcaller : c ≠ 0)
      (hrow : s.row = some ⟨.available, g⟩) :
      BackupStep s ({ s with row := some ⟨.deleting, g⟩ }.goOn c .deleting)
  -- a deletion that finds the row, in a listing or by a read, behind AVAILABLE already
  | findDeletable {s c row} (hidle : s.calls c = .idle) (hcaller : c ≠ 0) (hrow : s.row = some row)
      (hstatus : row.status = .failed ∨ row.status = .deleting ∨ row.status = .deleted) :
      BackupStep s (s.goOn c .deleting)
  -- `purge_row` of a dead CREATING row
  | removeDeadCreating {s c g} (hidle : s.calls c = .idle) (hcaller : c ≠ 0)
      (hrow : s.row = some ⟨.creating, g⟩) : BackupStep s ({ s with row := none }.goOn c .deleting)
  -- `delete_prefix` removes some of the objects
  | deleteObjects {s c files} {sidecar : Bool} {manifest} (hcall : s.calls c = .deleting)
      (hfiles : ∀ i, files i = none ∨ files i = s.files i) (hsidecar : sidecar → s.sidecar)
      (hmanifest : manifest = none ∨ manifest = s.manifest) : BackupStep s { s with
        files := files
        sidecar := sidecar
        manifest := manifest
        deletionStarted := true }
  | setDeleted {s c g} (hcall : s.calls c = .deleting) (hrow : s.row = some ⟨.deleting, g⟩) :
      BackupStep s { s with row := some ⟨.deleted, g⟩ }
  | removeTombstone {s row} (hrow : s.row = some row)
      (hstatus : row.status = .failed ∨ row.status = .deleted) : BackupStep s { s with row := none }

def CatalogStep (s s' : Nat → BackupWorld) : Prop :=
  ∃ id world, BackupStep (s id) world ∧ s' = update s id world

def CatalogReachable (s : Nat → BackupWorld) : Prop :=
  Relation.ReflTransGen CatalogStep (fun _ => BackupWorld.initial) s

/-! ### The invariant of a row -/

namespace BackupWorld

def Gone (s : BackupWorld) : Prop :=
  s.upload ≠ .notStarted ∧
    ∀ row, s.row = some row → row.status ≠ .creating ∧ row.status ≠ .available

/-- What is in the store while nothing was deleted, by how far the job is. -/
def Uploaded (s : BackupWorld) : Prop :=
  match s.upload with
  | .notStarted => s.late = [] ∧ s.manifest = none
  | .dataFiles _ entries => s.late = [] ∧ s.manifest = none ∧ s.FilesMatch entries
  | .documents _ entries => s.late = [] ∧ s.manifest = none ∧ s.sidecar = true ∧
      s.FilesMatch entries
  | .ended => (∀ entries, s.manifest = some entries →
        s.late = [] ∧ s.sidecar = true ∧ s.FilesMatch entries) ∧
      ∀ entries, .manifest entries ∈ s.late →
        s.late = [.manifest entries] ∧ s.sidecar = true ∧ s.FilesMatch entries

def CallSound (s : BackupWorld) : BackupCall → Prop
  | .readManifest _ entries | .readSidecar _ entries =>
    s.deletionStarted = false → s.manifest = some entries
  | .writing _ next _ _ | .rereading _ next _ _ =>
    (next = .available → s.deletionStarted = false → s.manifest ≠ none) ∧
      (next = .available ∨ next = .failed)
  | .matched _ .failed true | .deleting => s.Gone
  | _ => True

end BackupWorld

structure BackupInvariant (s : BackupWorld) : Prop where
  uploaded : s.deletionStarted = false → s.Uploaded
  gone : s.deletionStarted = true → s.Gone
  started : s.upload = .notStarted → s.row = none ∧ s.effects = []
  creating : ∀ g, s.row = some ⟨.creating, g⟩ → s.effects = []
  effective : ∀ row, s.row = some row → row.status ≠ .creating → s.effects = [row.generation]
  single : s.effects.length ≤ 1
  answered : s.answered ⊆ s.effects
  available : ∀ g, s.row = some ⟨.available, g⟩ → s.manifest ≠ none
  calls : ∀ c, s.CallSound (s.calls c)
  early : s.upload ≠ .ended → s.calls 0 = .idle
  unstarted : s.upload = .notStarted → ∀ c, s.calls c = .idle

open BackupWorld

theorem backupInvariant_initial : BackupInvariant initial := by
  constructor <;> simp [initial, Uploaded, CallSound]

namespace BackupWorld

theorem CallSound.mono {s s' : BackupWorld} {call} (h : s.CallSound call) (hgone : s.Gone → s'.Gone)
    (hkept : s'.deletionStarted = false → s.deletionStarted = false ∧
      ∀ entries, s.manifest = some entries → s'.manifest = some entries) :
    s'.CallSound call := by
  cases call with
  | idle | finished | probing g => trivial
  | deleting => exact hgone h
  | readManifest g entries | readSidecar g entries =>
    intro hnot
    obtain ⟨hdel, hmanifest⟩ := hkept hnot
    exact hmanifest entries (h hdel)
  | writing g next attempt cleans | rereading g next attempt cleans =>
    refine ⟨fun hnext hnot => ?_, h.2⟩
    obtain ⟨hdel, hmanifest⟩ := hkept hnot
    obtain ⟨entries, hentries⟩ := ne_none_iff_exists'.mp (h.1 hnext hdel)
    rw [hmanifest entries hentries]
    exact some_ne_none _
  | matched g next cleans =>
    cases next <;> cases cleans <;> first | trivial | exact hgone h

end BackupWorld

variable {s : BackupWorld}

namespace BackupInvariant

variable {row : BackupRow}

variable (h : BackupInvariant s)
include h

theorem started_of_row (hrow : s.row = some row) : s.upload ≠ .notStarted := by
  intro hnew
  rw [(h.started hnew).1] at hrow
  cases hrow

variable {c : Nat}

theorem started_of_call (hcall : s.calls c ≠ .idle) : s.upload ≠ .notStarted :=
  fun hnew => hcall (h.unstarted hnew c)

theorem ended_of_call (hcall : s.calls c ≠ .idle) (hzero : c = 0) : s.upload = .ended := by
  by_contra hnot
  exact hcall (hzero ▸ h.early hnot)

theorem not_deleted (hrow : s.row = some row)
    (hstatus : row.status = .creating ∨ row.status = .available) : s.deletionStarted = false := by
  by_contra hdeleted
  obtain ⟨hcreating, havailable⟩ := (h.gone (by simpa using hdeleted)).2 row hrow
  exact hstatus.elim hcreating havailable

variable {call : BackupCall}

theorem goOn (hsound : s.CallSound call)
    (hstarted : s.upload ≠ .notStarted) (hzero : c = 0 → s.upload = .ended) :
    BackupInvariant (s.goOn c call) where
  uploaded := h.uploaded
  gone := h.gone
  started := h.started
  creating := h.creating
  effective := h.effective
  single := h.single
  answered := h.answered
  available := h.available
  calls d := by
    change s.CallSound (update s.calls c call d)
    by_cases heq : d = c
    · rw [heq, update_self]
      exact hsound
    · rw [update_of_ne heq]
      exact h.calls d
  early hnot := by
    change update s.calls c call 0 = .idle
    by_cases heq : 0 = c
    · exact absurd (hzero heq.symm) hnot
    · rw [update_of_ne heq]
      exact h.early hnot
  unstarted hnew := absurd hnew hstarted

theorem goOn_begun
    (hcall : s.calls c ≠ .idle) (hsound : s.CallSound call) : BackupInvariant (s.goOn c call) :=
  h.goOn hsound (h.started_of_call hcall) (h.ended_of_call hcall)

theorem stop (hended : s.upload = .ended) {g}
    (hcall : call = .writing g .failed 0 true ∨ call = .writing g .failed 0 false ∨
      call = .finished) : BackupInvariant (s.goOn 0 call) := by
  refine h.goOn ?_ (by simp [hended]) fun _ => hended
  rcases hcall with rfl | rfl | rfl
  · exact ⟨by simp, .inr rfl⟩
  · exact ⟨by simp, .inr rfl⟩
  · trivial

theorem setRow_gone {row' : Option BackupRow} (hrow : s.row = some row)
    (hgone : ∀ r, row' = some r → r.status ≠ .creating ∧ r.status ≠ .available)
    (heffects : ∀ r, row' = some r → s.effects = [r.generation]) :
    BackupInvariant { s with row := row' } where
  uploaded := h.uploaded
  gone _ := ⟨h.started_of_row hrow, hgone⟩
  started hnew := absurd hnew (h.started_of_row hrow)
  creating _ hg := absurd rfl (hgone _ hg).1
  effective r hr _ := heffects r hr
  single := h.single
  answered := h.answered
  available _ hg := absurd rfl (hgone _ hg).2
  calls c := (h.calls c).mono (fun hold => ⟨hold.1, hgone⟩) fun hnot => ⟨hnot, fun _ => id⟩
  early := h.early
  unstarted := h.unstarted

theorem setStatus {g next answered} (hrow : s.row = some ⟨.creating, g⟩)
    (hnext : next = .available ∨ next = .failed) (hmanifest : next = .available → s.manifest ≠ none)
    (hanswered : answered ⊆ g :: s.answered) :
    BackupInvariant { s with
      row := some ⟨next, g⟩
      effects := g :: s.effects
      answered := answered } where
  uploaded := h.uploaded
  gone hdeleted := by
    have hnot : s.deletionStarted = false := h.not_deleted hrow (.inl rfl)
    exact absurd (hnot.symm.trans hdeleted) (by simp)
  started hnew := absurd hnew (h.started_of_row hrow)
  creating g' hg' := by
    cases hg'
    simp at hnext
  effective r hr _ := by
    cases hr
    rw [h.creating g hrow]
  single := by
    rw [h.creating g hrow]
    exact Nat.le_refl 1
  answered := by
    intro a ha
    rcases mem_cons.mp (hanswered ha) with rfl | hold
    · exact .head _
    · exact .tail _ (h.answered hold)
  available g' hg' := by
    cases hg'
    exact hmanifest rfl
  calls c := by
    refine (h.calls c).mono (fun hold => ?_) fun hnot => ⟨hnot, fun _ => id⟩
    exact absurd rfl (hold.2 _ hrow).1
  early := h.early
  unstarted := h.unstarted

theorem setStore {files : Nat → Option Nat} {sidecar manifest late upload}
    (huploaded : s.deletionStarted = false → Uploaded { s with
        files := files
        sidecar := sidecar
        manifest := manifest
        late := late
        upload := upload })
    (hmanifest : s.deletionStarted = false → ∀ entries, s.manifest = some entries →
      manifest = some entries) (hupload : upload ≠ .notStarted)
    (hended : s.upload = .ended → upload = .ended) :
    BackupInvariant { s with
      files := files
      sidecar := sidecar
      manifest := manifest
      late := late
      upload := upload } where
  uploaded := huploaded
  gone hdeleted := ⟨hupload, (h.gone hdeleted).2⟩
  started hnew := absurd hnew hupload
  creating := h.creating
  effective := h.effective
  single := h.single
  answered := h.answered
  available g hg := by
    have hnot : s.deletionStarted = false := h.not_deleted hg (.inr rfl)
    obtain ⟨entries, hentries⟩ := ne_none_iff_exists'.mp (h.available g hg)
    rw [hmanifest hnot entries hentries]
    exact some_ne_none _
  calls c := (h.calls c).mono (fun hold => ⟨hupload, hold.2⟩) fun hnot => ⟨hnot, hmanifest hnot⟩
  early hnot := h.early fun hend => hnot (hended hend)
  unstarted hnew := absurd hnew hupload

end BackupInvariant

theorem BackupWorld.FilesMatch.append {entries size} (h : s.FilesMatch entries) :
    (s.land (.dataFile entries.length size)).FilesMatch (entries ++ [size]) := by
  intro i z hz
  change update s.files entries.length (some size) i = some z
  by_cases heq : i = entries.length
  · subst heq
    simpa using hz
  rw [update_of_ne heq]
  refine h i z ?_
  rcases Nat.lt_or_ge i entries.length with hlt | hge
  · rwa [getElem?_append_left hlt] at hz
  · rw [getElem?_eq_none (by simp; omega)] at hz
    cases hz

theorem BackupWorld.Uploaded.of_ended (hupload : s.upload = .ended)
    (hmanifest : ∀ entries, s.manifest = some entries →
      s.late = [] ∧ s.sidecar = true ∧ s.FilesMatch entries)
    (hlate : ∀ entries, .manifest entries ∈ s.late →
      s.late = [.manifest entries] ∧ s.sidecar = true ∧ s.FilesMatch entries) : s.Uploaded := by
  rw [Uploaded, hupload]
  exact ⟨hmanifest, hlate⟩

theorem BackupInvariant.landLate (h : BackupInvariant s) {sooner later p}
    (hin : s.late = sooner ++ p :: later) :
    BackupInvariant { s.land p with late := sooner ++ later } := by
  have hne : s.late ≠ [] := by simp [hin]
  have hended : s.deletionStarted = false → s.upload = .ended ∧ s.manifest = none ∧
      ∀ entries, .manifest entries ∈ s.late →
        s.late = [.manifest entries] ∧ s.sidecar = true ∧ s.FilesMatch entries := by
    intro hnot
    have huploaded := h.uploaded hnot
    rw [Uploaded] at huploaded
    split at huploaded
    · exact absurd huploaded.1 hne
    · exact absurd huploaded.1 hne
    · exact absurd huploaded.1 hne
    rename_i hupload
    refine ⟨hupload, ?_, huploaded.2⟩
    by_contra hsome
    obtain ⟨entries, hentries⟩ := ne_none_iff_exists'.mp hsome
    exact hne (huploaded.1 entries hentries).1
  have hstarted : s.upload ≠ .notStarted := by
    cases hdeleted : s.deletionStarted with
    | false =>
      rw [(hended hdeleted).1]
      simp
    | true => exact (h.gone hdeleted).1
  have hsub : ∀ q ∈ sooner ++ later, q ∈ s.late := by
    intro q hq
    rw [hin]
    simp only [mem_append] at hq ⊢
    tauto
  -- a late manifest is alone, so a late file or sidecar has none beside it
  have halone : s.deletionStarted = false → ∀ entries, .manifest entries ∈ s.late →
      p = .manifest entries ∧ sooner ++ later = [] := by
    intro hnot entries hmem
    have heq := ((hended hnot).2.2 entries hmem).1
    rw [hin] at heq
    cases sooner with
    | nil =>
      cases heq
      exact ⟨rfl, rfl⟩
    | cons q rest => simp at heq
  cases p with
  | dataFile index size | sidecar =>
    refine h.setStore (fun hnot => ?_) (fun _ _ hmanifest => hmanifest) hstarted id
    obtain ⟨hupload, hnone, _⟩ := hended hnot
    refine .of_ended hupload (fun entries hentries => ?_) fun entries hmem => ?_
    · exact absurd (hnone.symm.trans hentries) (by simp)
    · exact absurd (halone hnot entries (hsub _ hmem)).1 (by simp)
  | manifest entries =>
    have hmem : .manifest entries ∈ s.late := by simp [hin]
    refine h.setStore (fun hnot => ?_) (fun hnot e he => ?_) hstarted id
    · obtain ⟨hupload, _, hlate⟩ := hended hnot
      obtain ⟨_, hsidecar, hfiles⟩ := hlate entries hmem
      have hnil := (halone hnot entries hmem).2
      refine .of_ended hupload (fun e he => ?_) fun e he => ?_
      · cases he
        exact ⟨hnil, hsidecar, hfiles⟩
      · change .manifest e ∈ sooner ++ later at he
        rw [hnil] at he
        cases he
    · exact absurd ((hended hnot).2.1.symm.trans he) (by simp)

-- a failed upload leaves only its late writes behind: a manifest among them is the last document
theorem BackupInvariant.endUpload (h : BackupInvariant s) {late}
    (hlate : s.deletionStarted = false → s.manifest = none ∧ ∀ e, .manifest e ∈ late →
      late = [.manifest e] ∧ s.sidecar = true ∧ s.FilesMatch e) :
    BackupInvariant { s with late := late, upload := .ended } := by
  refine h.setStore (fun hnot => ?_) (fun _ _ hmanifest => hmanifest) (by simp) (by simp)
  obtain ⟨hnone, hlate⟩ := hlate hnot
  exact .of_ended rfl (fun e he => absurd (hnone.symm.trans he) (by simp)) hlate

theorem BackupStep.invariant {s' : BackupWorld} (hstep : BackupStep s s')
    (h : BackupInvariant s) : BackupInvariant s' := by
  cases hstep with
  | @create g hnew =>
    obtain ⟨hrow, heffects⟩ := h.started hnew
    have hidle := h.unstarted hnew
    have hnot : s.deletionStarted = false := by
      by_contra hdeleted
      exact (h.gone (by simpa using hdeleted)).1 hnew
    have huploaded := h.uploaded hnot
    rw [Uploaded, hnew] at huploaded
    refine ⟨fun _ => ⟨huploaded.1, huploaded.2, fun i size hsize => by simp at hsize⟩,
      fun hdeleted => absurd (hnot.symm.trans hdeleted) (by simp), by simp, fun _ _ => heffects,
      fun row hr hne => ?_, h.single, h.answered, fun g' hg' => ?_, fun c => ?_, fun _ => hidle 0,
      by simp⟩
    · cases hr
      exact absurd rfl hne
    · cases hg'
    · change CallSound _ (s.calls c)
      rw [hidle c]
      trivial
  | @putFile g size entries hjob =>
    refine h.setStore (fun hnot => ?_) (fun _ _ hmanifest => hmanifest) (by simp) (by simp [hjob])
    have huploaded := h.uploaded hnot
    rw [Uploaded, hjob] at huploaded
    exact ⟨huploaded.1, huploaded.2.1, huploaded.2.2.append⟩
  | @putSidecar g entries hjob =>
    refine h.setStore (fun hnot => ?_) (fun _ _ hmanifest => hmanifest) (by simp) (by simp [hjob])
    have huploaded := h.uploaded hnot
    rw [Uploaded, hjob] at huploaded
    exact ⟨huploaded.1, huploaded.2.1, rfl, huploaded.2.2⟩
  | @putManifest g entries hjob =>
    have hdocuments : s.deletionStarted = false → s.late = [] ∧ s.manifest = none ∧
        s.sidecar = true ∧ s.FilesMatch entries := by
      intro hnot
      have huploaded := h.uploaded hnot
      rwa [Uploaded, hjob] at huploaded
    have hstored : BackupInvariant { s.land (.manifest entries) with upload := .ended } := by
      refine h.setStore (fun hnot => ?_) (fun hnot e he => ?_) (by simp) (by simp)
      · obtain ⟨hlate, _, hsidecar, hfiles⟩ := hdocuments hnot
        refine .of_ended rfl (fun e he => ?_) fun e he => ?_
        · cases he
          exact ⟨hlate, hsidecar, hfiles⟩
        · change .manifest e ∈ s.late at he
          rw [hlate] at he
          cases he
      · exact absurd ((hdocuments hnot).2.1.symm.trans he) (by simp)
    refine hstored.goOn ⟨fun _ _ => ?_, .inl rfl⟩ (by simp) fun _ => rfl
    exact some_ne_none entries
  | @uploadFails g entries late call hjob hlate hcall =>
    refine (h.endUpload fun hnot => ?_).stop rfl hcall
    have huploaded := h.uploaded hnot
    rw [Uploaded, hjob] at huploaded
    exact ⟨huploaded.2.1, fun e he => absurd rfl (hlate _ he e)⟩
  | @manifestFails g entries late call hjob hlate hcall =>
    refine (h.endUpload fun hnot => ?_).stop rfl hcall
    have huploaded := h.uploaded hnot
    rw [Uploaded, hjob] at huploaded
    refine ⟨huploaded.2.1, fun e he => ?_⟩
    rcases hlate with rfl | rfl
    · cases he
    · cases mem_singleton.mp he
      exact ⟨rfl, huploaded.2.2⟩
  | landLate hin => exact h.landLate hin
  | @takeOver c g g' hidle hcaller hrow hfresh =>
    have hstarted := h.started_of_row hrow
    have hnot : s.deletionStarted = false := h.not_deleted hrow (.inl rfl)
    have htaken : BackupInvariant { s with
        row := some ⟨.creating, g⟩
        generations := g :: s.generations } := by
      refine ⟨h.uploaded, fun hdeleted => absurd (hnot.symm.trans hdeleted) (by simp),
        fun hnew => absurd hnew hstarted, fun _ _ => h.creating g' hrow, fun row hr hne => ?_,
        h.single, h.answered, fun g'' hg'' => ?_, fun d => ?_, h.early, h.unstarted⟩
      · cases hr
        exact absurd rfl hne
      · cases hg''
      · refine (h.calls d).mono (fun hold => ?_) fun hnot => ⟨hnot, fun _ => id⟩
        exact absurd rfl (hold.2 _ hrow).1
    exact htaken.goOn trivial hstarted fun hzero => absurd hzero hcaller
  | probeManifest hcall hmanifest =>
    exact h.goOn_begun (by simp [hcall]) fun _ => hmanifest
  | @probeSidecar c g entries hcall hsidecar | @statusUnknown c g attempt next cleans hcall
  | @rereadRetry c g next cleans hcall hrow | @failRow c g hcall =>
    have hsound := h.calls c
    rw [hcall] at hsound
    exact h.goOn_begun (by simp [hcall]) hsound
  | @probeComplete c g entries hcall hfiles =>
    have hsound := h.calls c
    rw [hcall] at hsound
    refine h.goOn_begun (by simp [hcall]) ⟨fun _ hnot => ?_, .inl rfl⟩
    rw [hsound hnot]
    exact some_ne_none _
  | probeIncomplete hcall =>
    refine h.goOn_begun ?_ ⟨by simp, .inr rfl⟩
    rcases hcall with hcall | hcall | hcall <;> simp [hcall]
  | @statusWritten c g attempt next cleans hcall hif =>
    have hsound := h.calls c
    rw [hcall] at hsound
    have hnot : s.deletionStarted = false := h.not_deleted hif (.inl rfl)
    have hwritten := h.setStatus hif hsound.2 (fun heq => hsound.1 heq hnot)
      (List.Subset.refl (g :: s.answered))
    refine hwritten.goOn_begun (by simp [hcall]) ?_
    rcases hsound.2 with rfl | rfl
    · trivial
    cases cleans with
    | false => trivial
    | true =>
      refine ⟨h.started_of_row hif, fun row hr => ?_⟩
      cases hr
      simp
  | @statusWrittenUnknown c g attempt next cleans hcall hif =>
    have hsound := h.calls c
    rw [hcall] at hsound
    have hnot : s.deletionStarted = false := h.not_deleted hif (.inl rfl)
    have hwritten := h.setStatus hif hsound.2 (fun heq => hsound.1 heq hnot)
      (subset_cons_self g s.answered)
    exact hwritten.goOn_begun (by simp [hcall]) hsound
  | @rereadMatched c g attempt next cleans hcall hrow =>
    have hsound := h.calls c
    rw [hcall] at hsound
    have heffects : s.effects = [g] := by
      refine h.effective _ hrow ?_
      rcases hsound.2 with rfl | rfl <;> simp
    have hanswered : BackupInvariant { s with answered := g :: s.answered } := by
      refine ⟨h.uploaded, h.gone, h.started, h.creating, h.effective, h.single, ?_, h.available,
        fun d => (h.calls d).mono id fun hnot => ⟨hnot, fun _ => id⟩, h.early, h.unstarted⟩
      intro a ha
      rcases mem_cons.mp ha with rfl | hold
      · change a ∈ s.effects
        rw [heffects]
        exact .head _
      · exact h.answered hold
    refine hanswered.goOn_begun (by simp [hcall]) ?_
    rcases hsound.2 with rfl | rfl
    · trivial
    cases cleans with
    | false => trivial
    | true =>
      refine ⟨h.started_of_row hrow, fun row hr => ?_⟩
      cases hrow.symm.trans hr
      simp
  | stop hcall => exact h.goOn_begun hcall trivial
  | @startBackupDelete c g hidle hcaller hrow =>
    have hgone : ∀ r, some (BackupRow.mk .deleting g) = some r →
        r.status ≠ .creating ∧ r.status ≠ .available := by
      intro r hr
      cases hr
      simp
    have hmoved := h.setRow_gone hrow hgone fun r hr => by
      cases hr
      exact h.effective ⟨.available, g⟩ hrow (by simp)
    exact hmoved.goOn ⟨h.started_of_row hrow, hgone⟩ (h.started_of_row hrow)
      fun hzero => absurd hzero hcaller
  | @findDeletable c row hidle hcaller hrow hstatus =>
    refine h.goOn ⟨h.started_of_row hrow, fun r hr => ?_⟩ (h.started_of_row hrow)
      fun hzero => absurd hzero hcaller
    cases hrow.symm.trans hr
    rcases hstatus with heq | heq | heq <;> simp [heq]
  | @removeDeadCreating c g hidle hcaller hrow =>
    have hmoved : BackupInvariant { s with row := none } :=
      h.setRow_gone hrow (by simp) (by simp)
    exact hmoved.goOn ⟨h.started_of_row hrow, by simp⟩ (h.started_of_row hrow)
      fun hzero => absurd hzero hcaller
  | @deleteObjects c files sidecar manifest hcall hfiles hsidecar hmanifest =>
    have hgone : s.Gone := by
      have hsound := h.calls c
      rwa [hcall] at hsound
    refine ⟨by simp, fun _ => hgone, h.started, h.creating, h.effective, h.single, h.answered,
      fun g hg => ?_, fun d => (h.calls d).mono id (by simp), h.early, h.unstarted⟩
    exact absurd rfl (hgone.2 _ hg).2
  | @setDeleted c g hcall hrow =>
    refine h.setRow_gone hrow (fun r hr => ?_) fun r hr => ?_
    · cases hr
      simp
    · cases hr
      exact h.effective ⟨.deleting, g⟩ hrow (by simp)
  | @removeTombstone row hrow hstatus => exact h.setRow_gone hrow (by simp) (by simp)

theorem CatalogReachable.invariant {s} (h : CatalogReachable s) (id) : BackupInvariant (s id) := by
  induction h with
  | refl => exact backupInvariant_initial
  | @tail s s' _ hstep ih =>
    obtain ⟨id', world, hstep, rfl⟩ := hstep
    by_cases heq : id = id'
    · subst heq
      rw [update_self]
      exact hstep.invariant ih
    · rw [update_of_ne heq]
      exact ih

theorem BackupInvariant.complete (h : BackupInvariant s)
    (hnot : s.deletionStarted = false) (hmanifest : s.manifest ≠ none) : s.Complete := by
  obtain ⟨entries, hentries⟩ := ne_none_iff_exists'.mp hmanifest
  have huploaded := h.uploaded hnot
  rw [Uploaded] at huploaded
  split at huploaded
  · exact absurd huploaded.2 hmanifest
  · exact absurd huploaded.2.1 hmanifest
  · exact absurd huploaded.2.1 hmanifest
  · exact ⟨entries, hentries, (huploaded.1 entries hentries).2⟩

/-- In every interleaving: an AVAILABLE row has its manifest, its sidecar and every data file the
manifest names at the recorded size in the store; at most one claim of a row ever has a status write
that took effect, and only that claim is answered Matched; and once a deletion under the row's prefix
has started, the row is neither CREATING nor AVAILABLE. -/
theorem available_backup_complete {s : Nat → BackupWorld} (h : CatalogReachable s) (id : Nat) :
    (∀ g, (s id).row = some ⟨.available, g⟩ → (s id).Complete) ∧
    (s id).effects.length ≤ 1 ∧ (s id).answered ⊆ (s id).effects ∧
    ((s id).deletionStarted = true →
      ∀ row, (s id).row = some row → row.status ≠ .creating ∧ row.status ≠ .available) := by
  have hinv := h.invariant id
  refine ⟨fun g hg => ?_, hinv.single, hinv.answered, fun hdeleted => (hinv.gone hdeleted).2⟩
  exact hinv.complete (hinv.not_deleted hg (.inr rfl)) (hinv.available g hg)

/-- A backup of two files whose job gave up the put of the manifest, and the call of the reconciler
that took it over. -/
def takenOverBackup (manifest : Option (List Nat)) (late : List StorePut) (probe : BackupCall) :
    BackupWorld where
  row := some ⟨.creating, 2⟩
  files := update (update (fun _ => none) 0 (some 10)) 1 (some 20)
  sidecar := true
  manifest
  late
  upload := .ended
  calls := update (update (fun _ => .idle) 0 (.writing 1 .failed 0 false)) 1 probe
  generations := [2, 1]
  effects := []
  answered := []
  deletionStarted := false

theorem takenOverBackup_goOn (manifest late probe call) :
    (takenOverBackup manifest late probe).goOn 1 call = takenOverBackup manifest late call := by
  simp [takenOverBackup, BackupWorld.goOn]

theorem takenOverBackup_filesMatch (manifest late probe) :
    (takenOverBackup manifest late probe).FilesMatch [10, 20] := by
  intro i size hsize
  rcases i with _ | _ | i
  · exact hsize
  · exact hsize
  · cases hsize

/-- The manifest lands after the takeover, and the reconciler learns only from its re-read that its
write took effect. -/
theorem available_backup_complete_takenOver : ∃ s, CatalogReachable s ∧
    (s 0).row = some ⟨.available, 2⟩ ∧ (s 0).calls 0 = .writing 1 .failed 0 false ∧
    (s 0).Complete ∧ (s 0).answered = [2] ∧ (s 0).effects.length ≤ 1 := by
  have hlift {w w' : BackupWorld} (h : CatalogReachable (update (fun _ => .initial) 0 w))
      (hstep : BackupStep w w') : CatalogReachable (update (fun _ => .initial) 0 w') :=
    h.tail ⟨0, w', by rwa [update_self], by rw [update_idem]⟩
  have hcreated : CatalogReachable (update (fun _ => .initial) 0 _) :=
    .single ⟨0, _, @BackupStep.create _ 1 rfl, rfl⟩
  have hfiles := hlift (hlift hcreated (@BackupStep.putFile _ _ 10 _ rfl))
    (@BackupStep.putFile _ _ 20 _ rfl)
  have hgivenUp := hlift (hlift hfiles (.putSidecar rfl))
    (.manifestFails rfl (.inr rfl) (.inr (.inl rfl)))
  have htaken : CatalogReachable (update (fun _ => .initial) 0
      (takenOverBackup none [.manifest [10, 20]] (.probing 2))) :=
    hlift hgivenUp (@BackupStep.takeOver _ 1 2 _ rfl (by decide) rfl (by decide))
  have hlanded : CatalogReachable (update (fun _ => .initial) 0
      (takenOverBackup (some [10, 20]) [] (.probing 2))) :=
    hlift htaken (@BackupStep.landLate _ [] [] (.manifest [10, 20]) rfl)
  have hprobed := hlift hlanded (.probeManifest (c := 1) rfl rfl)
  rw [takenOverBackup_goOn] at hprobed
  replace hprobed := hlift hprobed (.probeSidecar (c := 1) rfl rfl)
  rw [takenOverBackup_goOn] at hprobed
  replace hprobed := hlift hprobed (.probeComplete (c := 1) rfl (takenOverBackup_filesMatch _ _ _))
  rw [takenOverBackup_goOn] at hprobed
  have hrun := hlift (hlift hprobed (.statusWrittenUnknown (c := 1) rfl rfl))
    (.rereadMatched (c := 1) rfl rfl)
  have hbackup := available_backup_complete hrun 0
  exact ⟨_, hrun, rfl, rfl, hbackup.1 2 rfl, rfl, hbackup.2.1⟩

end ExtendDb
