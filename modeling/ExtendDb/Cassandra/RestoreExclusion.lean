import ExtendDb.Cassandra.RestoreRegistration

/-!
# Restores and deletes of one backup exclude each other

While the backup lists the target of every takeover, a job that loads has its entry on the backup:
the map has one entry at most, and none once the backup has left AVAILABLE.
-/

namespace ExtendDb.Cassandra

open List Function Option

namespace RegistrationCall

def generation : RegistrationCall → Option ℕ
  | .asked (.refusal _ g) | .checking (.refusal _ g) _ | .clearing (.refusal _ g) _ _ => some g
  | .creating _ g | .registering _ g | .refused _ g | .takenOver _ g | .reapplying _ g => some g
  | .loading _ g => some g
  | _ => none

def creates : RegistrationCall → Option ℕ
  | .asked (.refusal t _) | .checking (.refusal t _) _ | .clearing (.refusal t _) _ _ => some t
  | .creating t _ | .registering t _ | .dropping t false => some t
  | _ => none

def loads : RegistrationCall → Option ℕ
  | .loading t _ => some t
  | _ => none

structure Apart (p q : RegistrationCall) : Prop where
  generation : ∀ g, p.generation = some g → q.generation ≠ some g
  creates : ∀ t, p.creates = some t → q.creates ≠ some t ∧ q.loads ≠ some t

end RegistrationCall

namespace BackupUse

variable {s s' : BackupUse} {c t g : ℕ} {q : RegistrationCall}

/-- A target that was created and is no longer CREATING. -/
def Gone (s : BackupUse) (t : ℕ) : Prop := t ∈ s.issued ∧ s.inProgress t = false

/-- A target that was created and is not registered. -/
def Unlisted (s : BackupUse) (t : ℕ) : Prop := t ∈ s.issued ∧ t ∉ s.registered

/-- What a call has found out by its place. -/
def CallOk (s : BackupUse) : RegistrationCall → Prop
  | .checking _ left => ∀ t ∈ left, t ∈ s.issued
  | .clearing _ t left => s.Gone t ∧ ∀ t ∈ left, t ∈ s.issued
  | .dropping t true => s.Gone t
  | .takenOver t _ => t ∈ s.issued
  | .reapplying _ _ => False
  | .loading t g => t ∈ s.issued ∧ (t ∈ s.registered ∨ s.owned t g = false)
  | _ => True

/-- What holds of a backup when the targets of all takeovers are listed. -/
structure Exclusive (s : BackupUse) : Prop where
  rows : ∀ t row, s.rows t = some row → t ∈ s.issued
  registered : ∀ t ∈ s.registered, t ∈ s.issued
  single : ∀ t ∈ s.registered, ∀ t' ∈ s.registered, t = t'
  closed : s.status ≠ .available → s.registered = []
  calls : ∀ c, s.CallOk (s.calls c)
  unlisted : ∀ c t, (s.calls c).creates = some t → s.Unlisted t
  used : ∀ c g, (s.calls c).generation = some g → g ∈ s.generations
  apart : ∀ c c', c ≠ c' → (s.calls c).Apart (s.calls c')

theorem exclusive_initial : Exclusive initial where
  rows _ _ h := nomatch h
  registered _ h := nomatch h
  single _ h := nomatch h
  closed h := absurd rfl h
  calls _ := trivial
  unlisted _ _ h := nomatch h
  used _ _ h := nomatch h
  apart _ _ _ := ⟨fun _ h => (nomatch h), fun _ h => nomatch h⟩

theorem owned_eq_false_of_not_inProgress (h : s.inProgress t = false) : s.owned t g = false := by
  unfold inProgress at h
  unfold owned
  cases hrow : s.rows t with
  | none => rfl
  | some row =>
    rw [hrow] at h
    simp [TargetRow.isOwnedBy, h]

/-- What one call's step may do to the rest: its entry is the only one it adds, it removes only
entries of targets that are gone, and nothing gone or lost comes back. -/
structure Advance (s s' : BackupUse) (c : ℕ) (q : RegistrationCall) : Prop where
  calls : s'.calls = update s.calls c q
  issued : ∀ t ∈ s.issued, t ∈ s'.issued
  generations : ∀ g ∈ s.generations, g ∈ s'.generations
  rows : ∀ t row, s'.rows t = some row → t ∈ s'.issued
  added : ∀ t ∈ s'.registered, t ∈ s.registered ∨ (s.calls c).creates = some t ∧ q.creates = none
  kept : ∀ t ∈ s.registered, t ∈ s'.registered ∨ s.Gone t
  single : ∀ t ∈ s'.registered, ∀ t' ∈ s'.registered, t = t'
  closed : s'.status ≠ .available → s'.registered = []
  gone : ∀ t, s.Gone t → s'.Gone t
  lost : ∀ t g, t ∈ s.issued → g ∈ s.generations → s.owned t g = false → s'.owned t g = false
  ok : s'.CallOk q
  generation : ∀ g, q.generation = some g →
    (s.calls c).generation = some g ∨ g ∉ s.generations ∧ g ∈ s'.generations
  creates : ∀ t, q.creates = some t →
    (s.calls c).creates = some t ∨ t ∉ s.issued ∧ t ∈ s'.issued
  loads : ∀ t, q.loads = some t →
    (s.calls c).loads = some t ∨ (s.calls c).creates = some t ∨ t ∈ s.registered

theorem Exclusive.issued_of_loads (h : s.Exclusive) {c} (hloads : (s.calls c).loads = some t) :
    t ∈ s.issued := by
  have hok := h.calls c
  cases hcall : s.calls c with
  | loading t' g =>
    rw [hcall] at hok hloads
    cases hloads
    exact hok.1
  | _ =>
    rw [hcall] at hloads
    cases hloads

variable {c' : ℕ}

theorem Advance.apart_left (ha : Advance s s' c q) (h : s.Exclusive) (hne : c' ≠ c) :
    q.Apart (s.calls c') := by
  refine ⟨fun g hg hg' => ?_, fun t ht => ?_⟩
  · rcases ha.generation g hg with hold | ⟨hnew, -⟩
    · exact (h.apart c c' hne.symm).generation g hold hg'
    · exact hnew (h.used c' g hg')
  · rcases ha.creates t ht with hold | ⟨hnew, -⟩
    · exact (h.apart c c' hne.symm).creates t hold
    · exact ⟨fun ht' => hnew (h.unlisted c' t ht').1, fun ht' => hnew (h.issued_of_loads ht')⟩

theorem Advance.apart_right (ha : Advance s s' c q) (h : s.Exclusive) (hne : c' ≠ c) :
    (s.calls c').Apart q := by
  refine ⟨fun g hg hg' => ?_, fun t ht => ⟨fun ht' => ?_, fun ht' => ?_⟩⟩
  · exact (ha.apart_left h hne).generation g hg' hg
  · exact ((ha.apart_left h hne).creates t ht').1 ht
  rcases ha.loads t ht' with hold | hcreated | hlisted
  · exact ((h.apart c' c hne).creates t ht).2 hold
  · exact ((h.apart c' c hne).creates t ht).1 hcreated
  · exact (h.unlisted c' t ht).2 hlisted

theorem Exclusive.callOk_later (h : s.Exclusive) (hissued : ∀ t ∈ s.issued, t ∈ s'.issued)
    (hkept : ∀ t ∈ s.registered, t ∈ s'.registered ∨ s.Gone t) (hgone : ∀ t, s.Gone t → s'.Gone t)
    (hlost : ∀ t g, t ∈ s.issued → g ∈ s.generations → s.owned t g = false →
      s'.owned t g = false) (c) : s'.CallOk (s.calls c) := by
  have hok := h.calls c
  have hused := h.used c
  cases hcall : s.calls c with
  | checking read left =>
    rw [hcall] at hok
    exact fun t ht => hissued t (hok t ht)
  | clearing read t left =>
    rw [hcall] at hok
    exact ⟨hgone t hok.1, fun t ht => hissued t (hok.2 t ht)⟩
  | dropping t fenced =>
    cases fenced with
    | true =>
      rw [hcall] at hok
      exact hgone t hok
    | false => trivial
  | takenOver t g =>
    rw [hcall] at hok
    exact hissued t hok
  | reapplying t g =>
    rw [hcall] at hok
    exact hok
  | loading t g =>
    rw [hcall] at hok hused
    refine ⟨hissued t hok.1, ?_⟩
    rcases hok.2 with hlisted | hnot
    · -- an entry only goes away when the target is gone, and then nobody owns it
      refine (hkept t hlisted).imp id fun hgone' => ?_
      exact owned_eq_false_of_not_inProgress (hgone t hgone').2
    · exact .inr (hlost t g hok.1 (hused g rfl) hnot)
  | _ => trivial

theorem Exclusive.advance (h : s.Exclusive) (ha : Advance s s' c q) : s'.Exclusive := by
  have hself : s'.calls c = q := by
    rw [ha.calls]
    exact update_self ..
  have hother : ∀ c', c' ≠ c → s'.calls c' = s.calls c' := by
    intro c' hne
    rw [ha.calls]
    exact update_of_ne hne ..
  refine ⟨ha.rows, ?_, ha.single, ha.closed, ?_, ?_, ?_, ?_⟩
  · intro t ht
    rcases ha.added t ht with hold | ⟨hcreated, -⟩
    · exact ha.issued t (h.registered t hold)
    · exact ha.issued t (h.unlisted c t hcreated).1
  · intro c'
    by_cases hc : c' = c
    · rw [hc, hself]
      exact ha.ok
    · rw [hother c' hc]
      exact h.callOk_later ha.issued ha.kept ha.gone ha.lost c'
  · intro c' t ht
    by_cases hc : c' = c
    · rw [hc, hself] at ht
      have hnot : t ∉ s'.registered := by
        intro hlisted
        rcases ha.added t hlisted with hold | ⟨-, hnone⟩
        · rcases ha.creates t ht with hcreated | ⟨hnew, -⟩
          · exact (h.unlisted c t hcreated).2 hold
          · exact hnew (h.registered t hold)
        · rw [hnone] at ht
          cases ht
      rcases ha.creates t ht with hcreated | ⟨-, hissued⟩
      · exact ⟨ha.issued t (h.unlisted c t hcreated).1, hnot⟩
      · exact ⟨hissued, hnot⟩
    · rw [hother c' hc] at ht
      refine ⟨ha.issued t (h.unlisted c' t ht).1, fun hlisted => ?_⟩
      rcases ha.added t hlisted with hold | ⟨hcreated, -⟩
      · exact (h.unlisted c' t ht).2 hold
      · exact ((h.apart c' c hc).creates t ht).1 hcreated
  · intro c' g hg
    by_cases hc : c' = c
    · rw [hc, hself] at hg
      rcases ha.generation g hg with hold | ⟨-, hnew⟩
      · exact ha.generations g (h.used c g hold)
      · exact hnew
    · rw [hother c' hc] at hg
      exact ha.generations g (h.used c' g hg)
  · intro c₁ c₂ hne
    by_cases h₁ : c₁ = c
    · subst h₁
      rw [hself, hother c₂ hne.symm]
      exact ha.apart_left h hne.symm
    by_cases h₂ : c₂ = c
    · subst h₂
      rw [hself, hother c₁ h₁]
      exact ha.apart_right h h₁
    · rw [hother c₁ h₁, hother c₂ h₂]
      exact h.apart c₁ c₂ hne

/-! ## The kinds of steps -/

structure Within (s : BackupUse) (c : ℕ) (q : RegistrationCall) : Prop where
  generation : ∀ g, q.generation = some g → (s.calls c).generation = some g
  creates : ∀ t, q.creates = some t → (s.calls c).creates = some t
  loads : ∀ t, q.loads = some t →
    (s.calls c).loads = some t ∨ (s.calls c).creates = some t ∨ t ∈ s.registered

theorem within_ended (s : BackupUse) (c) : s.Within c .ended :=
  ⟨fun _ h => (nomatch h), fun _ h => (nomatch h), fun _ h => nomatch h⟩

theorem Exclusive.goOn (h : s.Exclusive) (hw : s.Within c q) (hok : s.CallOk q) :
    (s.goOn c q).Exclusive :=
  h.advance (c := c) (q := q)
    { calls := rfl
      issued := fun _ ht => ht
      generations := fun _ hg => hg
      rows := h.rows
      added := fun _ ht => Or.inl ht
      kept := fun _ ht => Or.inl ht
      single := h.single
      closed := h.closed
      gone := fun _ ht => ht
      lost := fun _ _ _ _ hlost => hlost
      ok := hok
      generation := fun g hg => Or.inl (hw.generation g hg)
      creates := fun t ht => Or.inl (hw.creates t ht)
      loads := hw.loads }

variable {u : ℕ}

theorem rows_setRow_of_ne {row} (hu : u ≠ t) : (s.setRow t row).rows u = s.rows u :=
  update_of_ne hu ..

theorem rows_setRow_self (s : BackupUse) (t) (row) : (s.setRow t row).rows t = row :=
  update_self ..

theorem inProgress_congr (h : s'.rows u = s.rows u) : s'.inProgress u = s.inProgress u := by
  unfold inProgress
  rw [h]

theorem owned_congr (h : s'.rows u = s.rows u) : s'.owned u g = s.owned u g := by
  unfold owned
  rw [h]

variable {row : TargetRow}

theorem inProgress_of_row (h : s.rows t = some row) :
    s.inProgress t = decide (row.status = .creating) := by
  unfold inProgress
  rw [h]

theorem owned_of_row (h : s.rows t = some row) : s.owned t g = row.isOwnedBy g := by
  unfold owned
  rw [h]

theorem Exclusive.setRow (h : s.Exclusive) {row} (hissued : row ≠ none → t ∈ s.issued)
    (hprogress : s.inProgress t = false → (s.setRow t row).inProgress t = false)
    (howned : ∀ g ∈ s.generations, s.owned t g = false → (s.setRow t row).owned t g = false) :
    (s.setRow t row).Exclusive := by
  have hgone : ∀ u, s.Gone u → (s.setRow t row).Gone u := by
    intro u hu
    refine ⟨hu.1, ?_⟩
    by_cases heq : u = t
    · subst heq
      exact hprogress hu.2
    · exact (inProgress_congr (rows_setRow_of_ne heq)).trans hu.2
  have hlost : ∀ u g, u ∈ s.issued → g ∈ s.generations → s.owned u g = false →
      (s.setRow t row).owned u g = false := by
    intro u g _ hg hlost
    by_cases heq : u = t
    · subst heq
      exact howned g hg hlost
    · exact (owned_congr (rows_setRow_of_ne heq)).trans hlost
  refine ⟨fun u urow hu => ?_, h.registered, h.single, h.closed,
    h.callOk_later (fun _ ht => ht) (fun _ ht => .inl ht) hgone hlost, h.unlisted, h.used, h.apart⟩
  by_cases heq : u = t
  · subst heq
    refine hissued ?_
    rw [← rows_setRow_self s u row]
    exact fun hnone => some_ne_none _ (hu.symm.trans hnone)
  · exact h.rows u urow ((rows_setRow_of_ne heq).symm.trans hu)

variable {row' : TargetRow}

section

variable (h : s.Exclusive)
include h

theorem Exclusive.writeRow (hrow : s.rows t = some row)
    (hstatus : row'.status = .creating → row.status = .creating)
    (howned : ∀ g ∈ s.generations, row'.isOwnedBy g = true → row.isOwnedBy g = true) :
    (s.setRow t (some row')).Exclusive := by
  refine h.setRow (fun _ => h.rows t row hrow) (fun hprogress => ?_) fun g hg hlost => ?_
  · rw [inProgress_of_row hrow, decide_eq_false_iff_not] at hprogress
    rw [inProgress_of_row (rows_setRow_self s t _), decide_eq_false_iff_not]
    exact fun hcreating => hprogress (hstatus hcreating)
  rw [owned_of_row hrow] at hlost
  rw [owned_of_row (rows_setRow_self s t _), Bool.eq_false_iff]
  intro hnow
  rw [howned g hg hnow] at hlost
  cases hlost

theorem Exclusive.unregister (hgone : t ∈ s.registered → s.Gone t) :
    (s.unregister t).Exclusive := by
  have hsub : ∀ u ∈ (s.unregister t).registered, u ∈ s.registered := fun u hu =>
    (mem_filter.mp hu).1
  have hkept : ∀ u ∈ s.registered, u ∈ (s.unregister t).registered ∨ s.Gone u := by
    intro u hu
    by_cases heq : u = t
    · subst heq
      exact .inr (hgone hu)
    · exact .inl (mem_filter.mpr ⟨hu, decide_eq_true heq⟩)
  refine ⟨h.rows, fun u hu => h.registered u (hsub u hu),
    fun u hu v hv => h.single u (hsub u hu) v (hsub v hv), fun hstatus => ?_,
    h.callOk_later (fun _ ht => ht) hkept (fun _ ht => ht) fun _ _ _ _ hlost => hlost,
    fun c u hu => ?_, h.used, h.apart⟩
  · refine eq_nil_iff_forall_not_mem.mpr fun u hu => ?_
    have hmem := hsub u hu
    rw [h.closed hstatus] at hmem
    cases hmem
  · exact ⟨(h.unlisted c u hu).1, fun hmem => (h.unlisted c u hu).2 (hsub u hmem)⟩

/-- `register_restore` is applied: the backup is AVAILABLE, and the entry is the only one. -/
theorem Exclusive.register {answered} (hcall : s.calls c = .registering t g)
    (hstatus : s.status = .available) (hnone : s.registered = []) :
    ({ s with registered := [t] }.goOn c
      (if answered = true then .loading t g else .refused t g)).Exclusive := by
  have hcreates : (s.calls c).creates = some t := by
    rw [hcall]
    rfl
  have hissued := (h.unlisted c t hcreates).1
  refine h.advance (c := c) (q := if answered = true then .loading t g else .refused t g)
    { calls := rfl
      issued := fun _ ht => ht
      generations := fun _ hg => hg
      rows := h.rows
      added := fun u hu => .inr ?_
      kept := fun u hu => ?_
      single := fun u hu v hv => (mem_singleton.mp hu).trans (mem_singleton.mp hv).symm
      closed := fun hne => absurd hstatus hne
      gone := fun _ ht => ht
      lost := fun _ _ _ _ hlost => hlost
      ok := ?_
      generation := fun g' hg => .inl ?_
      creates := fun u hu => ?_
      loads := fun u hu => .inr (.inl ?_) }
  · rw [mem_singleton.mp hu]
    cases answered with
    | true | false => exact ⟨hcreates, rfl⟩
  · rw [hnone] at hu
    cases hu
  · cases answered with
    | true => exact ⟨hissued, .inl (.head _)⟩
    | false => trivial
  · rw [hcall]
    cases answered with
    | true | false => exact hg
  · cases answered with
    | true | false => cases hu
  · cases answered with
    | true =>
      cases hu
      exact hcreates
    | false => cases hu

theorem Exclusive.insert (hfresh : t ∉ s.issued) (hnew : g ∉ s.generations) (name) :
    (s.insert c t g name).Exclusive := by
  have hother : ∀ u ∈ s.issued, (s.insert c t g name).rows u = s.rows u := by
    intro u hu
    refine update_of_ne ?_ _ _
    rintro rfl
    exact hfresh hu
  refine h.advance (c := c) (q := .creating t g)
    { calls := rfl
      issued := fun _ ht => mem_cons_of_mem _ ht
      generations := fun _ hg => mem_cons_of_mem _ hg
      rows := fun u row hu => ?_
      added := fun _ ht => .inl ht
      kept := fun _ ht => .inl ht
      single := h.single
      closed := h.closed
      gone := fun u hu => ⟨.tail _ hu.1, ?_⟩
      lost := fun u g' hu _ hlost => (owned_congr (hother u hu)).trans hlost
      ok := trivial
      generation := fun g' hg => ?_
      creates := fun u hu => ?_
      loads := fun u hu => nomatch hu }
  · by_cases heq : u = t
    · rw [heq]
      exact .head _
    · refine mem_cons_of_mem _ (h.rows u row ?_)
      exact (update_of_ne heq _ _).symm.trans hu
  · exact (inProgress_congr (hother u hu.1)).trans hu.2
  · cases hg
    exact .inr ⟨hnew, .head _⟩
  · cases hu
    exact .inr ⟨hfresh, .head _⟩

theorem Exclusive.takeOver (hrow : s.rows t = some row)
    (hnew : g ∉ s.generations) : (s.takeOver c t g row).Exclusive := by
  have hother : ∀ u, u ≠ t → (s.takeOver c t g row).rows u = s.rows u := fun u hu =>
    update_of_ne hu _ _
  have hself : (s.takeOver c t g row).rows t =
      some { row with generation := g, heartbeatAt := s.now } := update_self ..
  have hissued := h.rows t row hrow
  refine h.advance (c := c) (q := .takenOver t g)
    { calls := rfl
      issued := fun _ ht => ht
      generations := fun _ hg => mem_cons_of_mem _ hg
      rows := fun u urow hu => ?_
      added := fun _ ht => .inl ht
      kept := fun _ ht => .inl ht
      single := h.single
      closed := h.closed
      gone := fun u hu => ⟨hu.1, ?_⟩
      lost := fun u g' hu hg hlost => ?_
      ok := hissued
      generation := fun g' hg => ?_
      creates := fun u hu => nomatch hu
      loads := fun u hu => nomatch hu }
  · by_cases heq : u = t
    · rw [heq]
      exact hissued
    · exact h.rows u urow ((hother u heq).symm.trans hu)
  · by_cases heq : u = t
    · subst heq
      rw [inProgress_of_row hself]
      exact (inProgress_of_row hrow).symm.trans hu.2
    · exact (inProgress_congr (hother u heq)).trans hu.2
  · by_cases heq : u = t
    · -- the new generation is not an old one
      subst heq
      have hne : g ≠ g' := by
        rintro rfl
        exact hnew hg
      rw [owned_of_row hself]
      simp [TargetRow.isOwnedBy, hne]
    · exact (owned_congr (hother u heq)).trans hlost
  · cases hg
    exact .inr ⟨hnew, .head _⟩

end

theorem isOwnedBy_iff : row.isOwnedBy g = true ↔
      row.status = .creating ∧ row.record = .running ∧ row.generation = g := by
  simp [TargetRow.isOwnedBy, and_assoc]

theorem Within.of_call {p} (hcall : s.calls c = p)
    (hgeneration : q.generation = none ∨ q.generation = p.generation)
    (hcreates : q.creates = none ∨ q.creates = p.creates) (hloads : q.loads = none) :
    s.Within c q := by
  subst hcall
  refine ⟨fun g hg => ?_, fun t ht => ?_, fun t ht => ?_⟩
  · rcases hgeneration with h | h <;> simp_all
  · rcases hcreates with h | h <;> simp_all
  · simp_all

theorem not_owned_of (h : row.status ≠ .creating ∨ row.record ≠ .running) (g) :
    row.isOwnedBy g ≠ true := by
  rw [Ne, isOwnedBy_iff]
  rintro ⟨hstatus, hrecord, -⟩
  rcases h with h | h
  · exact h hstatus
  · exact h hrecord

variable (h : s.Exclusive)
include h

theorem Exclusive.moveToDeleting (hrow : s.rows t = some row) (hdeleting : row'.status = .deleting)
    (hw : s.Within c (.dropping t true)) :
    ((s.setRow t (some row')).goOn c (.dropping t true)).Exclusive := by
  have hnot : row'.status ≠ .creating := by
    rw [hdeleting]
    decide
  have hmoved : (s.setRow t (some row')).Exclusive :=
    h.writeRow hrow (fun hcreating => absurd hcreating hnot)
      fun g _ howned => absurd howned (not_owned_of (.inl hnot) g)
  refine hmoved.goOn ⟨hw.generation, hw.creates, hw.loads⟩ ⟨h.rows t row hrow, ?_⟩
  rw [inProgress_of_row (rows_setRow_self s t _)]
  exact decide_eq_false hnot

theorem Exclusive.step {staleAfter e} (hlisted : s.Listed e)
    (hstep : s.step staleAfter e = some s') : s'.Exclusive := by
  cases e <;> simp only [BackupUse.step] at hstep
  case ticks =>
    cases hstep
    exact ⟨h.rows, h.registered, h.single, h.closed, h.calls, h.unlisted, h.used, h.apart⟩
  case stops c =>
    cases hstep
    exact h.goOn (within_ended s c) trivial
  case asks c read =>
    obtain ⟨⟨hcall, hmay⟩, heq⟩ := ite_none_right_eq_some.mp hstep
    cases heq
    cases read with
    | refusal t g => cases hmay
    | _ => exact h.goOn (.of_call hcall (.inl rfl) (.inl rfl) rfl) trivial
  case loads c =>
    split at hstep
    · rename_i read hcall
      split at hstep
      · cases hstep
        refine h.goOn (.of_call hcall ?_ ?_ rfl) h.registered
        all_goals cases read <;> exact .inr rfl
      cases hstep
      cases read with
      | refusal t g =>
        exact h.goOn (.of_call hcall (.inr rfl) (.inl rfl) rfl) trivial
      | _ => exact h.goOn (within_ended s c) trivial
    · cases hstep
  case looks c =>
    split at hstep
    · rename_i read t left hcall
      have hok := h.calls c
      rw [hcall] at hok
      split at hstep
      · cases hstep
        cases read with
        | sweep =>
          exact h.goOn (.of_call hcall (.inl rfl) (.inl rfl) rfl) fun u hu => hok u (.tail _ hu)
        | refusal t' g =>
          exact h.goOn (.of_call hcall (.inr rfl) (.inl rfl) rfl) trivial
        | register | delete => exact h.goOn (within_ended s c) trivial
      · rename_i hprogress
        cases hstep
        refine h.goOn (.of_call hcall ?_ ?_ rfl)
          ⟨⟨hok t (.head _), Bool.eq_false_iff.mpr hprogress⟩, fun u hu => hok u (.tail _ hu)⟩
        all_goals cases read <;> exact .inr rfl
    · cases hstep
  case clears c =>
    split at hstep
    · rename_i read t left hcall
      have hok := h.calls c
      rw [hcall] at hok
      cases hstep
      refine (h.unregister fun _ => hok.1).goOn (.of_call hcall ?_ ?_ rfl) hok.2
      all_goals cases read <;> exact .inr rfl
    · cases hstep
  case proceeds c =>
    split at hstep
    · rename_i read hcall
      cases hstep
      cases read with
      | refusal t g =>
        exact h.goOn (.of_call hcall (.inr rfl) (.inr rfl) rfl) trivial
      | _ =>
        exact h.goOn (.of_call hcall (.inl rfl) (.inl rfl) rfl) trivial
    · cases hstep
  case inserts c t g name =>
    obtain ⟨⟨-, hfresh, hnew, -⟩, heq⟩ := ite_none_right_eq_some.mp hstep
    cases heq
    exact h.insert hfresh hnew name
  case created c =>
    split at hstep
    · rename_i t g hcall
      cases hstep
      exact h.goOn (.of_call hcall (.inr rfl) (.inr rfl) rfl) trivial
    · cases hstep
  case creationFails c =>
    split at hstep
    · rename_i t g hcall
      cases hstep
      exact h.goOn (.of_call hcall (.inl rfl) (.inr rfl) rfl) trivial
    · cases hstep
  case registers c answered =>
    split at hstep
    · rename_i t g hcall
      split at hstep
      · rename_i hfree
        cases hstep
        exact h.register hcall hfree.1 hfree.2
      · cases hstep
        exact h.goOn (.of_call hcall (.inr rfl) (.inr rfl) rfl) trivial
    · cases hstep
  case exhausts c =>
    split at hstep
    · rename_i t g hcall
      cases hstep
      exact h.goOn (.of_call hcall (.inr rfl) (.inl rfl) rfl) trivial
    · cases hstep
  case claimsRemoval c =>
    split at hstep
    · rename_i t g hcall
      split at hstep
      · rename_i row hrow
        split at hstep
        · cases hstep
          exact h.moveToDeleting hrow rfl (.of_call hcall (.inl rfl) (.inl rfl) rfl)
        · cases hstep
          exact h.goOn (within_ended s c) trivial
      · cases hstep
        exact h.goOn (within_ended s c) trivial
    · cases hstep
  case removes c t =>
    split at hstep
    · rename_i row hrow
      obtain ⟨⟨hcall, -⟩, heq⟩ := ite_none_right_eq_some.mp hstep
      cases heq
      exact h.moveToDeleting hrow rfl (.of_call hcall (.inl rfl) (.inl rfl) rfl)
    · cases hstep
  case unregisters c =>
    split at hstep
    · rename_i t fenced hcall
      cases hstep
      have hok := h.calls c
      have hunlisted := h.unlisted c t
      rw [hcall] at hok hunlisted
      have hgone : t ∈ s.registered → s.Gone t := by
        intro hmem
        cases fenced with
        | true => exact hok
        | false => exact absurd hmem (hunlisted rfl).2
      exact (h.unregister hgone).goOn (.of_call hcall (.inl rfl) (.inl rfl) rfl) trivial
    · cases hstep
  case unlists c =>
    split at hstep
    · rename_i t hcall
      cases hstep
      have hnone := rows_setRow_self s t none
      have hunlisted : (s.setRow t none).Exclusive := by
        refine h.setRow (fun hne => absurd rfl hne) (fun _ => ?_) fun g _ _ => ?_
        · unfold inProgress
          rw [hnone]
        · unfold owned
          rw [hnone]
      exact hunlisted.goOn (within_ended _ c) trivial
    · cases hstep
  case takesOver c t g =>
    split at hstep
    · rename_i row hrow
      obtain ⟨⟨-, -, -, hnew⟩, heq⟩ := ite_none_right_eq_some.mp hstep
      cases heq
      exact h.takeOver hrow hnew
    · cases hstep
  case readsMap c =>
    split at hstep
    · rename_i t g hcall
      have hmem := hlisted t g hcall
      rw [if_pos hmem] at hstep
      cases hstep
      refine h.goOn ⟨?_, fun _ ht => (nomatch ht), fun u hu => ?_⟩ ⟨h.registered t hmem, .inl hmem⟩
      · rw [hcall]
        exact fun _ hg => hg
      · cases hu
        exact .inr (.inr hmem)
    · cases hstep
  case reapplies c reached =>
    -- with every takeover listed there is nothing to add again
    split at hstep
    · rename_i t g hcall
      have hok := h.calls c
      rw [hcall] at hok
      exact hok.elim
    · cases hstep
  case heartbeats c =>
    split at hstep
    · rename_i t g hcall
      split at hstep
      · rename_i row hrow
        obtain ⟨-, heq⟩ := ite_none_right_eq_some.mp hstep
        cases heq
        exact h.writeRow hrow id fun g _ howned => howned
      · cases hstep
    · cases hstep
  case activates c =>
    split at hstep
    · rename_i t g hcall
      split at hstep
      · rename_i row hrow
        obtain ⟨-, heq⟩ := ite_none_right_eq_some.mp hstep
        cases heq
        have hactive : TargetStatus.active ≠ .creating := by decide
        have hdone : (s.setRow t (some { row with status := .active, record := .done })).Exclusive :=
          h.writeRow hrow (fun hcreating => absurd hcreating hactive)
            fun g _ howned => absurd howned (not_owned_of (.inl hactive) g)
        exact hdone.goOn (within_ended _ c) trivial
      · cases hstep
    · cases hstep
  case marksFailed t =>
    split at hstep
    · rename_i row hrow
      obtain ⟨-, heq⟩ := ite_none_right_eq_some.mp hstep
      cases heq
      have hfailed : RestoreStatus.failed ≠ .running := by decide
      exact h.writeRow hrow id fun g _ howned => absurd howned (not_owned_of (.inr hfailed) g)
    · cases hstep
  case claims c =>
    obtain ⟨hcall, heq⟩ := ite_none_right_eq_some.mp hstep
    split at heq
    · rename_i hfree
      cases heq
      have hended := h.goOn (within_ended s c) trivial
      exact ⟨hended.rows, hended.registered, hended.single, fun _ => hfree.2, hended.calls,
        hended.unlisted, hended.used, hended.apart⟩
    · cases heq
      exact h.goOn (.of_call hcall (.inl rfl) (.inl rfl) rfl) trivial
  case finishesDelete =>
    obtain ⟨hdeleting, heq⟩ := ite_none_right_eq_some.mp hstep
    cases heq
    refine ⟨h.rows, h.registered, h.single, fun _ => h.closed ?_, h.calls, h.unlisted, h.used,
      h.apart⟩
    rw [hdeleting]
    decide

theorem Exclusive.registered_of_loading (hloading : s.Loading c t) : t ∈ s.registered := by
  obtain ⟨g, hcall, howned⟩ := hloading
  have hok := h.calls c
  rw [hcall] at hok
  refine hok.2.resolve_right fun hlost => ?_
  rw [howned] at hlost
  cases hlost

theorem Exclusive.eq_of_loading (hloading : s.Loading c t)
    (hloading' : s.Loading c' t) : c = c' := by
  obtain ⟨g, hcall, howned⟩ := hloading
  obtain ⟨g', hcall', howned'⟩ := hloading'
  have hsame : g = g' := by
    cases hrow : s.rows t with
    | none =>
      unfold owned at howned
      rw [hrow] at howned
      cases howned
    | some row =>
      rw [owned_of_row hrow, isOwnedBy_iff] at howned howned'
      exact howned.2.2.symm.trans howned'.2.2
  by_contra hne
  refine (h.apart c c' hne).generation g ?_ ?_
  · rw [hcall]
    rfl
  · rw [hcall', hsame]
    rfl

end BackupUse

open EventRun BackupUse

/-- While the backup lists the target of every takeover, at most one job loads from the backup, and
none once it has left AVAILABLE. -/
theorem restores_exclusive (staleAfter : ℕ) (s : BackupUse)
    (hrun : Reaches (step staleAfter) Listed .initial s) :
    (∀ c c' t t', s.Loading c t → s.Loading c' t' → c = c') ∧
    ∀ c t, s.Loading c t → s.status = .available := by
  have h : s.Exclusive := hrun.keeps (fun _ _ _ hlisted hstep hs => hs.step hlisted hstep)
    exclusive_initial
  refine ⟨fun c c' t t' hloading hloading' => ?_, fun c t hloading => ?_⟩
  · have heq := h.single t (h.registered_of_loading hloading) t' (h.registered_of_loading hloading')
    subst heq
    exact h.eq_of_loading hloading hloading'
  by_contra hstatus
  have hmem := h.registered_of_loading hloading
  rw [h.closed hstatus] at hmem
  cases hmem

/-- A restore registers and dies, a second call takes it over, and a delete finds it in use. -/
theorem restores_exclusive_taken_over :
    ∃ s, Reaches (step 0) Listed .initial s ∧ s.Loading 1 1 ∧ s.calls 2 = .ended ∧
      s.status = .available := by
  have hadmits : Admits (step 0) Listed .initial
      [.asks 0 .register, .loads 0, .proceeds 0, .inserts 0 1 10 "restored", .created 0,
        .registers 0 true, .stops 0, .ticks, .takesOver 1 1 11, .readsMap 1, .asks 2 .delete,
        .loads 2, .looks 2] := by
    refine .cons trivial rfl (.cons trivial rfl (.cons trivial rfl (.cons trivial rfl
      (.cons trivial rfl (.cons trivial rfl (.cons trivial rfl (.cons trivial rfl
      (.cons trivial rfl (.cons ?_ rfl (.cons trivial rfl (.cons trivial rfl (.cons trivial rfl
      trivial))))))))))))
    intro t g hcall
    cases hcall
    exact .head _
  have hrun : Reaches (step 0) Listed .initial _ := .of_admits hadmits rfl
  exact ⟨_, hrun, ⟨11, rfl, rfl⟩, rfl, (restores_exclusive 0 _ hrun).2 1 1 ⟨11, rfl, rfl⟩⟩

/-- Two restores and, in another run, a restore and a delete are asked for while the backup is free.
The first restore creates its target and dies before it registers.  The second restore registers, or
the delete moves the backup to DELETING; then the first is taken over, and its load goes on. -/
theorem takeover_beside_restore_and_delete :
    (∃ s, Reaches (step 0) Anything .initial s ∧ s.Loading 1 2 ∧ s.Loading 2 1) ∧
    ∃ s, Reaches (step 0) Anything .initial s ∧ s.Loading 2 1 ∧ s.status = .deleting := by
  have hrestores : Reaches (step 0) Anything .initial _ := .of_run
    [.asks 0 .register, .asks 1 .register, .loads 0, .proceeds 0, .inserts 0 1 10 "first",
      .created 0, .stops 0, .loads 1, .proceeds 1, .inserts 1 2 20 "second", .created 1,
      .registers 1 true, .ticks, .takesOver 2 1 11, .readsMap 2, .reapplies 2 true] rfl
  have hdelete : Reaches (step 0) Anything .initial _ := .of_run
    [.asks 0 .register, .asks 1 .delete, .loads 0, .proceeds 0, .inserts 0 1 10 "first",
      .created 0, .stops 0, .loads 1, .proceeds 1, .claims 1, .ticks, .takesOver 2 1 11,
      .readsMap 2, .reapplies 2 true] rfl
  exact ⟨⟨_, hrestores, ⟨20, rfl, rfl⟩, ⟨11, rfl, rfl⟩⟩, ⟨_, hdelete, ⟨11, rfl, rfl⟩, rfl⟩⟩

end ExtendDb.Cassandra
