import Mathlib.Data.List.Lex

/-!
# TransactGetItems against committing transactions

One reader reads every key twice while transactions prepare, commit and roll back around it, one row
and one statement at a time.
-/

namespace ExtendDb.Cassandra

open List Function Option

inductive SnapshotMember (ν : Type) where
  | write (new : Option ν)
  | check
deriving DecidableEq

structure SnapshotTxn (κ ν : Type) where
  timestamp : Int
  members : κ → Option (SnapshotMember ν)

/-- A base row; a null `last_committed_txn_timestamp` is read as zero. -/
structure SnapshotRow (ν ι : Type) where
  item : Option ν
  timestamp : Int
  marker : Option ι

def SnapshotRow.commit {ν ι : Type} (row : SnapshotRow ν ι) (timestamp : Int) :
    SnapshotMember ν → SnapshotRow ν ι
  | .write (some new) => ⟨some new, timestamp, none⟩
  | .write none => ⟨none, 0, none⟩
  | .check => { row with marker := none }

def SnapshotRow.first {ν ι : Type} (row : SnapshotRow ν ι) : Option (ν × Int × Option ι) :=
  row.item.map fun item => (item, row.timestamp, row.marker)

/-- `read_item_metadata_only` -/
def SnapshotRow.second {ν ι : Type} (row : SnapshotRow ν ι) : Option (Int × Option ι) :=
  if row.item.isNone && row.marker.isNone then none else some (row.timestamp, row.marker)

/-- The comparison of the two phases. -/
def acceptsReads {ν ι : Type} [DecidableEq ι] :
    Option (ν × Int × Option ι) → Option (Int × Option ι) → Bool
  | some (_, ts₁, prep₁), some (ts₂, prep₂) => ts₁ = ts₂ && prep₁ = prep₂
  | none, some _ => false
  | _, none => true

/-- The reader: its first reads so far; how many of them it has verified; its answer.  From the end
of the first phase on it carries the serial order at that moment. -/
inductive SnapshotReader (ν ι : Type) where
  | reading (done : List (Option (ν × Int × Option ι)))
  | verifying (seen : List (Option (ν × Int × Option ι))) (n : Nat) (point : List ι)
  | returned (items : List (Option ν)) (point : List ι)
  | failed

structure SnapshotState (κ ν ι : Type) where
  rows : κ → SnapshotRow ν ι
  order : List ι
  reader : SnapshotReader ν ι

section

variable {κ ν ι : Type} [DecidableEq κ] [DecidableEq ι] (txns : ι → SnapshotTxn κ ν)
  (start : κ → Option ν × Int) (keys : List κ)

def contentAfter : List ι → κ → Option ν
  | [], k => (start k).1
  | T :: order, k => match (txns T).members k with
    | some (.write new) => new
    | _ => contentAfter order k

def SnapshotState.initial : SnapshotState κ ν ι where
  rows k := ⟨(start k).1, (start k).2, none⟩
  order := []
  reader := .reading []

def SnapshotState.setRow (s : SnapshotState κ ν ι) (k : κ) (row : SnapshotRow ν ι) :
    SnapshotState κ ν ι :=
  { s with rows := update s.rows k row }

open SnapshotState in
inductive SnapshotStep : SnapshotState κ ν ι → SnapshotState κ ν ι → Prop where
  | prepare {s T k} (hopen : T ∉ s.order) (hmember : ((txns T).members k).isSome = true)
      (hfree : (s.rows k).marker = none) :
      SnapshotStep s (s.setRow k { s.rows k with marker := some T })
  | rollback {s T k} (hopen : T ∉ s.order) (hmarker : (s.rows k).marker = some T) :
      SnapshotStep s (s.setRow k { s.rows k with marker := none })
  | commit {s T} (hopen : T ∉ s.order)
      (hall : ∀ k new, (txns T).members k = some (.write new) → (s.rows k).marker = some T) :
      SnapshotStep s { s with order := T :: s.order }
  | apply {s T k member} (hcommitted : T ∈ s.order) (hmarker : (s.rows k).marker = some T)
      (hmember : (txns T).members k = some member) :
      SnapshotStep s (s.setRow k ((s.rows k).commit (txns T).timestamp member))
  | readFirst {s done k} (hreader : s.reader = .reading done) (hkey : keys[done.length]? = some k) :
      SnapshotStep s { s with reader := .reading (done ++ [(s.rows k).first]) }
  | startVerify {s done} (hreader : s.reader = .reading done) (hlength : done.length = keys.length)
      (hfree : ∀ x ts prep, some (x, ts, prep) ∈ done → prep = none) :
      SnapshotStep s { s with reader := .verifying done 0 s.order }
  | verify {s seen n point k first} (hreader : s.reader = .verifying seen n point)
      (hkey : keys[n]? = some k) (hfirst : seen[n]? = some first)
      (haccepts : acceptsReads first (s.rows k).second = true) :
      SnapshotStep s { s with reader := .verifying seen (n + 1) point }
  | answer {s seen n point} (hreader : s.reader = .verifying seen n point)
      (hlength : n = keys.length) :
      SnapshotStep s { s with reader := .returned (seen.map (Option.map Prod.fst)) point }
  -- a statement that fails, a marker or a difference between the phases
  | fail {s} : SnapshotStep s { s with reader := .failed }

/-- The answer is the content of its keys after some of the committed transactions, in their serial
order. -/
def SnapshotState.AnswersSnapshot (s : SnapshotState κ ν ι) : Prop :=
  ∀ items point, s.reader = .returned items point →
    ∃ order, order <:+ s.order ∧ items = keys.map (contentAfter txns start order)

def SnapshotReader.Between : SnapshotReader ν ι → κ → Prop
  | .reading done, k => ∃ i, i < done.length ∧ keys[i]? = some k
  | .verifying _ n _, k => ∃ i, n ≤ i ∧ keys[i]? = some k
  | _, _ => False

def KeepsPresence (s s' : SnapshotState κ ν ι) : Prop :=
  ∀ k, s.reader.Between keys k → (s'.rows k).item.isSome = (s.rows k).item.isSome

section

variable (s : SnapshotState κ ν ι)

def SnapshotReachable : Prop :=
  Relation.ReflTransGen (SnapshotStep txns keys) (.initial start) s

def SnapshotGuardedReachable : Prop :=
  Relation.ReflTransGen (fun s s' => SnapshotStep txns keys s s' ∧ KeepsPresence keys s s')
    (.initial start) s

/-! ### The invariant -/

def pendingWrite (k : κ) : Option (Option ν) :=
  match (s.rows k).marker with
  | none => none
  | some T => if T ∈ s.order then
      match (txns T).members k with
      | some (.write new) => some new
      | _ => none
    else none

def OldStamp (k : κ) (ts : Int) : Prop :=
  ∀ T, T ∉ s.order ∨ (s.rows k).marker = some T → (txns T).timestamp ≠ ts

/-- What holds of a key between its two reads: an absent item is absent still, a present one is the
same or has a new timestamp; and at the point between the phases the content was the item read, or
a write to the row is outstanding. -/
def Window (k : κ) (point : Option (List ι)) : Option (ν × Int × Option ι) → Prop
  | none => (s.rows k).item = none ∧ ∀ order ∈ point, contentAfter txns start order k = none ∨
      ∃ v, pendingWrite txns s k = some (some v)
  | some (x, ts, _) => (s.rows k).item.isSome = true ∧ OldStamp txns s k ts ∧
      ((s.rows k).timestamp ≠ ts ∨ ((s.rows k).item = some x ∧
        ∀ order ∈ point, contentAfter txns start order k = some x ∨
          (pendingWrite txns s k).isSome = true))

def ReaderInvariant : SnapshotReader ν ι → Prop
  | .reading done => ∀ (i : Nat) k first, keys[i]? = some k → done[i]? = some first →
      Window txns start s k none first
  | .verifying seen n point => seen.length = keys.length ∧
      (∀ x ts prep, some (x, ts, prep) ∈ seen → prep = none) ∧ point <:+ s.order ∧
      (∀ (i : Nat) k first, i < n → keys[i]? = some k → seen[i]? = some first →
        contentAfter txns start point k = first.map Prod.fst) ∧
      ∀ (i : Nat) k first, n ≤ i → keys[i]? = some k → seen[i]? = some first →
        Window txns start s k (some point) first
  | .returned items point => point <:+ s.order ∧ items = keys.map (contentAfter txns start point)
  | .failed => True

end

structure SnapshotInvariant (s : SnapshotState κ ν ι) : Prop where
  content : ∀ k, contentAfter txns start s.order k =
    (pendingWrite txns s k).getD (s.rows k).item
  stamps : ∀ k, OldStamp txns s k (s.rows k).timestamp
  reader : ReaderInvariant txns start keys s s.reader

variable {txns start keys} {first : Option (ν × Int × Option ι)} {k : κ}
  {s : SnapshotState κ ν ι} {s' : SnapshotState κ ν ι}

omit [DecidableEq κ] in
theorem Window.imp {point} (h : Window txns start s k point first)
    (hitem : (s'.rows k).item = (s.rows k).item)
    (hstamp : (s'.rows k).timestamp = (s.rows k).timestamp)
    (hold : ∀ ts, OldStamp txns s k ts → OldStamp txns s' k ts)
    (hpending : ∀ v, pendingWrite txns s k = some v → pendingWrite txns s' k = some v) :
    Window txns start s' k point first := by
  rcases first with - | ⟨x, ts, prep⟩
  · refine ⟨hitem.trans h.1, fun order horder => ?_⟩
    rcases h.2 order horder with hnone | ⟨v, hv⟩
    · exact .inl hnone
    · exact .inr ⟨v, hpending _ hv⟩
  obtain ⟨hsome, hts, hrest⟩ := h
  refine ⟨by rw [hitem]; exact hsome, hold ts hts, ?_⟩
  rcases hrest with htouched | ⟨hx, hpoint⟩
  · exact .inl (by rw [hstamp]; exact htouched)
  refine .inr ⟨hitem.trans hx, fun order horder => ?_⟩
  rcases hpoint order horder with heq | hsome
  · exact .inl heq
  · obtain ⟨v, hv⟩ := isSome_iff_exists.mp hsome
    exact .inr (by rw [hpending v hv]; rfl)

variable {reader : SnapshotReader ν ι}

omit [DecidableEq κ] in
theorem ReaderInvariant.imp
    (h : ReaderInvariant txns start keys s reader) (horder : s.order <:+ s'.order)
    (hwindow : ∀ k point first, reader.Between keys k → Window txns start s k point first →
      Window txns start s' k point first) : ReaderInvariant txns start keys s' reader := by
  cases reader with
  | reading done =>
    intro i k first hkey hfirst
    have hlt : i < done.length := by
      by_contra hge
      rw [getElem?_eq_none (Nat.le_of_not_lt hge)] at hfirst
      cases hfirst
    exact hwindow k none first ⟨i, hlt, hkey⟩ (h i k first hkey hfirst)
  | verifying seen n point =>
    obtain ⟨hlength, hfree, hpoint, hverified, hopen⟩ := h
    exact ⟨hlength, hfree, hpoint.trans horder, hverified, fun i k first hn hkey hfirst =>
      hwindow k _ first ⟨i, hn, hkey⟩ (hopen i k first hn hkey hfirst)⟩
  | returned items point => exact ⟨h.1.trans horder, h.2⟩
  | failed => trivial

omit [DecidableEq κ] in
theorem pendingWrite_eq_none
    (h : ∀ T, (s.rows k).marker = some T → T ∉ s.order) : pendingWrite txns s k = none := by
  unfold pendingWrite
  split
  · rfl
  · rename_i T hmarker
    exact if_neg (h T hmarker)

theorem SnapshotInvariant.mark (h : SnapshotInvariant txns start keys s) {marker}
    (hbefore : ∀ T, (s.rows k).marker = some T → T ∉ s.order)
    (hafter : ∀ T, marker = some T → T ∉ s.order) :
    SnapshotInvariant txns start keys (s.setRow k { s.rows k with marker := marker }) := by
  have hrow (d : κ) : (s.setRow k { s.rows k with marker := marker }).rows d =
      if d = k then { s.rows k with marker := marker } else s.rows d := by
    change update s.rows k _ d = _
    rw [update_apply]
  have hpending (d : κ) : pendingWrite txns (s.setRow k { s.rows k with marker := marker }) d =
      pendingWrite txns s d := by
    by_cases hd : d = k
    · subst hd
      rw [pendingWrite_eq_none hbefore]
      refine pendingWrite_eq_none fun T hT => hafter T ?_
      rw [hrow, if_pos rfl] at hT
      exact hT
    · rw [pendingWrite, hrow, if_neg hd]
      rfl
  have hitem (d : κ) : ((s.setRow k { s.rows k with marker := marker }).rows d).item =
      (s.rows d).item := by
    rw [hrow]
    split
    · rename_i hd
      rw [hd]
    · rfl
  have hstamp (d : κ) : ((s.setRow k { s.rows k with marker := marker }).rows d).timestamp =
      (s.rows d).timestamp := by
    rw [hrow]
    split
    · rename_i hd
      rw [hd]
    · rfl
  have hold (d : κ) (ts : Int) (hts : OldStamp txns s d ts) :
      OldStamp txns (s.setRow k { s.rows k with marker := marker }) d ts := by
    rintro T (hT | hT)
    · exact hts T (.inl hT)
    rw [hrow] at hT
    split at hT
    · exact hts T (.inl (hafter T hT))
    · exact hts T (.inr hT)
  refine ⟨fun d => ?_, fun d => ?_, ?_⟩
  · rw [hpending, hitem]
    exact h.content d
  · rw [hstamp]
    exact hold d _ (h.stamps d)
  · refine h.reader.imp (suffix_refl _) fun d point first _ hwindow => ?_
    exact hwindow.imp (hitem d) (hstamp d) (hold d) fun v hv => (hpending d).trans hv

omit [DecidableEq κ] in
theorem SnapshotInvariant.commit (h : SnapshotInvariant txns start keys s) {T} (hopen : T ∉ s.order)
    (hall : ∀ k new, (txns T).members k = some (.write new) → (s.rows k).marker = some T) :
    SnapshotInvariant txns start keys { s with order := T :: s.order } := by
  have hpending (k : κ) (v : Option ν) (hv : pendingWrite txns s k = some v) :
      pendingWrite txns { s with order := T :: s.order } k = some v := by
    unfold pendingWrite at hv ⊢
    cases hmarker : (s.rows k).marker with
    | none => simp [hmarker] at hv
    | some T' =>
      simp only [hmarker] at hv ⊢
      split at hv
      · rename_i hmem
        rw [if_pos (mem_cons_of_mem _ hmem)]
        exact hv
      · cases hv
  have hold (k : κ) (ts : Int) (hts : OldStamp txns s k ts) :
      OldStamp txns { s with order := T :: s.order } k ts := by
    rintro T' (hT | hT)
    · exact hts T' (.inl fun hmem => hT (mem_cons_of_mem _ hmem))
    · exact hts T' (.inr hT)
  refine ⟨fun k => ?_, fun k => hold k _ (h.stamps k), ?_⟩
  · change contentAfter txns start (T :: s.order) k = _
    have hcontent := h.content k
    unfold contentAfter
    split
    · -- a row the transaction writes: the content runs ahead of the row
      rename_i new hmember
      have hmarker := hall k new hmember
      have hnow : pendingWrite txns { s with order := T :: s.order } k = some new := by
        unfold pendingWrite
        simp [hmarker, hmember]
      rw [hnow]
      rfl
    · rename_i hnot
      rw [hcontent]
      unfold pendingWrite
      cases hmarker : (s.rows k).marker with
      | none => rfl
      | some T' =>
        by_cases hT : T' = T
        · subst hT
          simp
        · simp [hT]
  · refine h.reader.imp (suffix_cons _ _) fun k point first _ hwindow => ?_
    exact hwindow.imp rfl rfl (hold k) (hpending k)

theorem SnapshotInvariant.apply
    (hdistinct : ∀ T T', (txns T).timestamp = (txns T').timestamp → T = T')
    (hnull : ∀ T, (txns T).timestamp ≠ 0) (h : SnapshotInvariant txns start keys s) {T member}
    (hcommitted : T ∈ s.order) (hmarker : (s.rows k).marker = some T)
    (hmember : (txns T).members k = some member)
    (hpresence : KeepsPresence keys s (s.setRow k ((s.rows k).commit (txns T).timestamp member))) :
    SnapshotInvariant txns start keys
      (s.setRow k ((s.rows k).commit (txns T).timestamp member)) := by
  have hself : (s.setRow k ((s.rows k).commit (txns T).timestamp member)).rows k =
      (s.rows k).commit (txns T).timestamp member := update_self ..
  have hother {d : κ} (hd : d ≠ k) :
      (s.setRow k ((s.rows k).commit (txns T).timestamp member)).rows d = s.rows d :=
    update_of_ne hd ..
  have hcleared : ((s.rows k).commit (txns T).timestamp member).marker = none := by
    rcases member with (- | new) | - <;> rfl
  have hnone : pendingWrite txns (s.setRow k ((s.rows k).commit (txns T).timestamp member)) k =
      none := pendingWrite_eq_none fun T' hT => by
    rw [hself, hcleared] at hT
    cases hT
  have hpendingOther {d : κ} (hd : d ≠ k) :
      pendingWrite txns (s.setRow k ((s.rows k).commit (txns T).timestamp member)) d =
        pendingWrite txns s d := by
    rw [pendingWrite, hother hd]
    rfl
  have hpendingSelf : pendingWrite txns s k = match member with
      | .write new => some new
      | .check => none := by
    unfold pendingWrite
    rcases member with new | -
    · simp [hmarker, hcommitted, hmember]
    · simp [hmarker, hmember]
  have hold (d : κ) (ts : Int) (hts : OldStamp txns s d ts) :
      OldStamp txns (s.setRow k ((s.rows k).commit (txns T).timestamp member)) d ts := by
    rintro T' (hT | hT)
    · exact hts T' (.inl hT)
    by_cases hd : d = k
    · rw [hd, hself, hcleared] at hT
      cases hT
    · rw [hother hd] at hT
      exact hts T' (.inr hT)
  refine ⟨fun d => ?_, fun d => ?_, ?_⟩
  · by_cases hd : d = k
    · subst hd
      have hcontent := h.content d
      rw [hpendingSelf] at hcontent
      rw [hnone, hself]
      change contentAfter txns start s.order d = _
      rw [hcontent]
      rcases member with (- | new) | - <;> rfl
    · rw [hpendingOther hd, hother hd]
      exact h.content d
  · by_cases hd : d = k
    · subst hd
      rw [hself]
      rcases member with (- | new) | -
      · exact fun T' _ => hnull T'
      · rintro T' (hT | hT) heq
        · exact hT (hdistinct T' T heq ▸ hcommitted)
        · rw [hself] at hT
          cases hT
      · exact hold d _ (h.stamps d)
    · rw [hother hd]
      exact hold d _ (h.stamps d)
  · refine h.reader.imp (suffix_refl _) fun d point first hbetween hwindow => ?_
    by_cases hd : d = k
    · subst hd
      have hkept := hpresence d hbetween
      rw [hself] at hkept
      rcases first with - | ⟨x, ts, prep⟩
      · obtain ⟨habsent, hpoint⟩ := hwindow
        rw [habsent] at hkept
        -- the row stays without an item, so the write that was outstanding is none of an item
        have hitem : ((s.rows d).commit (txns T).timestamp member).item = none :=
          isSome_eq_false_iff.mp hkept |> isNone_iff_eq_none.mp
        refine ⟨by rw [hself]; exact hitem, fun order horder => ?_⟩
        rcases hpoint order horder with heq | ⟨v, hv⟩
        · exact .inl heq
        rw [hpendingSelf] at hv
        rcases member with new | -
        · cases hv
          cases hitem
        · cases hv
      · obtain ⟨hsome, hts, hrest⟩ := hwindow
        refine ⟨by rw [hself, hkept]; exact hsome, hold d ts hts, ?_⟩
        rw [hself]
        rcases member with (- | new) | -
        · rw [hsome] at hkept
          cases hkept
        · -- the new timestamp is not the one read
          exact .inl (hts T (.inr hmarker))
        · rcases hrest with htouched | ⟨hx, hpoint⟩
          · exact .inl htouched
          refine .inr ⟨hx, fun order horder => ?_⟩
          rcases hpoint order horder with heq | hpending
          · exact .inl heq
          · rw [hpendingSelf] at hpending
            cases hpending
    · exact hwindow.imp (by rw [hother hd]) (by rw [hother hd]) (hold d)
        fun v hv => (hpendingOther hd).trans hv

omit [DecidableEq κ] in
theorem snapshotInvariant_initial (hfresh : ∀ T k, (txns T).timestamp ≠ (start k).2) :
    SnapshotInvariant txns start keys (.initial start) where
  content k := rfl
  stamps k T _ := hfresh T k
  reader i k first _ hfirst := by cases hfirst

omit [DecidableEq κ] in
theorem SnapshotInvariant.setReader (h : SnapshotInvariant txns start keys s)
    (hreader : ReaderInvariant txns start keys s reader) :
    SnapshotInvariant txns start keys { s with reader := reader } := by
  refine ⟨h.content, h.stamps, ?_⟩
  exact hreader.imp (suffix_refl _) fun k point first _ hwindow =>
    hwindow.imp rfl rfl (fun ts hts => hts) fun v hv => hv

omit [DecidableEq κ] in
theorem SnapshotInvariant.window_first (h : SnapshotInvariant txns start keys s) (k) :
    Window txns start s k none (s.rows k).first := by
  have hstamp := h.stamps k
  unfold SnapshotRow.first
  cases hitem : (s.rows k).item with
  | none => exact ⟨hitem, fun order horder => by cases horder⟩
  | some x =>
    exact ⟨by rw [hitem]; rfl, hstamp, .inr ⟨hitem, fun order horder => by cases horder⟩⟩

omit [DecidableEq κ] in
theorem SnapshotInvariant.window_point (h : SnapshotInvariant txns start keys s)
    (hwindow : Window txns start s k none first) : Window txns start s k (some s.order) first := by
  have hcontent := h.content k
  rcases first with - | ⟨x, ts, prep⟩
  · refine ⟨hwindow.1, fun order horder => ?_⟩
    cases horder
    rw [hwindow.1] at hcontent
    cases hpending : pendingWrite txns s k with
    | none => exact .inl (by rw [hcontent, hpending]; rfl)
    | some new =>
      cases new with
      | none => exact .inl (by rw [hcontent, hpending]; rfl)
      | some v => exact .inr ⟨v, rfl⟩
  · obtain ⟨hsome, hts, hrest⟩ := hwindow
    refine ⟨hsome, hts, ?_⟩
    -- a row that was written since its first read fails the comparison later
    rcases hrest with htouched | ⟨hx, -⟩
    · exact .inl htouched
    refine .inr ⟨hx, fun order horder => ?_⟩
    cases horder
    rw [hx] at hcontent
    cases hpending : pendingWrite txns s k with
    | none => exact .inl (by rw [hcontent, hpending]; rfl)
    | some new => exact .inr rfl

omit [DecidableEq κ] in
theorem Window.content_of_accepts {point} (h : Window txns start s k (some point) first)
    (hfree : ∀ x ts prep, first = some (x, ts, prep) → prep = none)
    (haccepts : acceptsReads first (s.rows k).second = true) :
    contentAfter txns start point k = first.map Prod.fst := by
  have hpending (hmarker : (s.rows k).marker = none) : pendingWrite txns s k = none :=
    pendingWrite_eq_none fun T hT => by
      rw [hmarker] at hT
      cases hT
  rcases first with - | ⟨x, ts, prep⟩
  · -- both phases without an item: nothing is outstanding at the second one
    have hsecond : (s.rows k).second = none := by
      cases hread : (s.rows k).second with
      | none => rfl
      | some second => rw [hread] at haccepts; cases haccepts
    have hmarker : (s.rows k).marker = none := by
      unfold SnapshotRow.second at hsecond
      split at hsecond
      · rename_i hboth
        simpa using (Bool.and_eq_true_iff.mp hboth).2
      · cases hsecond
    rcases h.2 point rfl with heq | ⟨v, hv⟩
    · exact heq
    · rw [hpending hmarker] at hv
      cases hv
  · obtain ⟨hsome, -, hrest⟩ := h
    have hsecond : (s.rows k).second = some ((s.rows k).timestamp, (s.rows k).marker) := by
      unfold SnapshotRow.second
      simp [isNone_eq_false_iff.mpr hsome]
    rw [hsecond] at haccepts
    obtain ⟨hts, hprep⟩ := Bool.and_eq_true_iff.mp haccepts
    rcases hrest with htouched | ⟨-, hpoint⟩
    · exact absurd (of_decide_eq_true hts).symm htouched
    rcases hpoint point rfl with heq | hsomePending
    · exact heq
    have hmarker : (s.rows k).marker = none :=
      (of_decide_eq_true hprep).symm.trans (hfree x ts prep rfl)
    rw [hpending hmarker] at hsomePending
    cases hsomePending

theorem SnapshotStep.invariant
    (hdistinct : ∀ T T', (txns T).timestamp = (txns T').timestamp → T = T')
    (hnull : ∀ T, (txns T).timestamp ≠ 0) (hstep : SnapshotStep txns keys s s')
    (hpresence : KeepsPresence keys s s') (h : SnapshotInvariant txns start keys s) :
    SnapshotInvariant txns start keys s' := by
  cases hstep with
  | prepare hopen _ hfree =>
    refine h.mark (fun T hT => ?_) fun T hT => ?_
    · rw [hfree] at hT
      cases hT
    · cases hT
      exact hopen
  | rollback hopen hmarker =>
    refine h.mark (fun T hT => ?_) fun T hT => by cases hT
    cases hmarker.symm.trans hT
    exact hopen
  | commit hopen hall => exact h.commit hopen hall
  | apply hcommitted hmarker hmember =>
    exact h.apply hdistinct hnull hcommitted hmarker hmember hpresence
  | @readFirst done k hreader hkey =>
    refine h.setReader fun i d first hd hfirst => ?_
    have hbefore := h.reader
    rw [hreader] at hbefore
    rcases Nat.lt_or_ge i done.length with hi | hi
    · rw [getElem?_append_left hi] at hfirst
      exact hbefore i d first hd hfirst
    rw [getElem?_append_right hi] at hfirst
    obtain ⟨hlt, hget⟩ := List.getElem?_eq_some_iff.mp hfirst
    have hlast : i = done.length := by
      simp only [length_singleton] at hlt
      omega
    subst hlast
    cases hd.symm.trans hkey
    simp only [Nat.sub_self] at hget
    rw [← hget]
    exact h.window_first k
  | @startVerify done hreader hlength hfree =>
    have hbefore := h.reader
    rw [hreader] at hbefore
    refine h.setReader ⟨hlength, hfree, suffix_refl _, fun i k first hi => ?_,
      fun i k first _ hkey hfirst => h.window_point (hbefore i k first hkey hfirst)⟩
    exact absurd hi (Nat.not_lt_zero i)
  | @verify seen n point k first hreader hkey hfirst haccepts =>
    have hbefore := h.reader
    rw [hreader] at hbefore
    obtain ⟨hlength, hfree, hpoint, hverified, hopen⟩ := hbefore
    refine h.setReader ⟨hlength, hfree, hpoint, fun i d f hi hd hf => ?_, fun i d f hi hd hf =>
      hopen i d f (Nat.le_of_succ_le hi) hd hf⟩
    rcases Nat.lt_or_eq_of_le (Nat.le_of_lt_succ hi) with hlt | heq
    · exact hverified i d f hlt hd hf
    subst heq
    cases hd.symm.trans hkey
    cases hf.symm.trans hfirst
    refine (hopen i k first (Nat.le_refl i) hd hf).content_of_accepts (fun x ts prep hx => ?_)
      haccepts
    exact hfree x ts prep (hx ▸ mem_of_getElem? hf)
  | @answer seen n point hreader hlength =>
    have hbefore := h.reader
    rw [hreader] at hbefore
    obtain ⟨hseen, -, hpoint, hverified, -⟩ := hbefore
    refine h.setReader ⟨hpoint, ext_getElem (by simp [hseen]) fun i hi hi' => ?_⟩
    simp only [length_map] at hi hi'
    rw [getElem_map, getElem_map]
    exact (hverified i _ _ (hlength ▸ hi') (getElem?_eq_getElem hi') (getElem?_eq_getElem hi)).symm
  | fail => exact h.setReader trivial

end

/-- A TransactGetItems that answers has read a snapshot, in every run in which no statement creates
or deletes an item between the two reads of its key. -/
theorem transact_get_snapshot {κ ν ι : Type} [DecidableEq κ] [DecidableEq ι]
    (txns : ι → SnapshotTxn κ ν) (start : κ → Option ν × Int) (keys : List κ)
    (hdistinct : ∀ T T', (txns T).timestamp = (txns T').timestamp → T = T')
    (hfresh : ∀ T k, (txns T).timestamp ≠ (start k).2) (hnull : ∀ T, (txns T).timestamp ≠ 0)
    (s : SnapshotState κ ν ι) (h : SnapshotGuardedReachable txns start keys s) :
    s.AnswersSnapshot txns start keys := by
  have hinv : SnapshotInvariant txns start keys s := by
    induction h with
    | refl => exact snapshotInvariant_initial hfresh
    | tail _ hstep ih => exact hstep.1.invariant hdistinct hnull hstep.2 ih
  intro items point hreader
  have hanswer := hinv.reader
  rw [hreader] at hanswer
  exact ⟨point, hanswer⟩

/-! ### Runs -/

/-- One transaction over two rows that hold the item 1. -/
def soleTxn (members : Bool → Option (SnapshotMember Nat)) : Unit → SnapshotTxn Bool Nat :=
  fun _ => ⟨7, members⟩

def soleStart : Bool → Option Nat × Int := fun _ => (some 1, 0)

/-- The first item as it was, and the second one as the transaction left it. -/
def soleReads : List (Option (Nat × Int × Option Unit)) := [some (1, 0, none), some (2, 7, none)]

theorem soleReads_free (x ts) (prep) (h : some (x, ts, prep) ∈ soleReads) : prep = none := by
  rcases mem_cons.mp h with heq | hmem
  · cases heq
    rfl
  · cases mem_singleton.mp hmem
    rfl

/-- The reader goes on to its answer once the transaction is applied. -/
theorem soleReads_answered {txns} (rows : Bool → SnapshotRow Nat Unit)
    (hfirst : (rows true).first = some (2, 7, none))
    (hfalse : acceptsReads (some ((1 : Nat), 0, none)) (rows false).second = true)
    (htrue : acceptsReads (some ((2 : Nat), 7, none)) (rows true).second = true) :
    Relation.ReflTransGen
      (fun s s' => SnapshotStep txns [false, true] s s' ∧ KeepsPresence [false, true] s s')
      ⟨rows, [()], .reading [some (1, 0, none)]⟩ ⟨rows, [()], .returned [some 1, some 2] [()]⟩ := by
  refine .head (b := ⟨rows, [()], .reading soleReads⟩) ⟨?_, fun _ _ => rfl⟩ ?_
  · rw [soleReads, ← hfirst]
    exact @SnapshotStep.readFirst _ _ _ _ _ txns _ ⟨rows, [()], .reading [some (1, 0, none)]⟩ _ true
      rfl rfl
  refine .head ⟨.startVerify rfl rfl soleReads_free, fun _ _ => rfl⟩ ?_
  refine .head ⟨.verify (k := false) rfl rfl rfl hfalse, fun _ _ => rfl⟩ ?_
  refine .head ⟨.verify (k := true) rfl rfl rfl htrue, fun _ _ => rfl⟩ ?_
  exact .single ⟨@SnapshotStep.answer _ _ _ _ _ _ _ _ soleReads 2 _ rfl rfl, fun _ _ => rfl⟩

/-- The transaction replaces the second item before the reader reads it. -/
theorem transact_get_snapshot_replaced :
    ∃ s, SnapshotGuardedReachable (soleTxn fun k => if k then some (.write (some 2)) else none)
        soleStart [false, true] s ∧ s.reader = .returned [some 1, some 2] [()] ∧
      s.AnswersSnapshot (soleTxn fun k => if k then some (.write (some 2)) else none) soleStart
        [false, true] := by
  let txns := soleTxn fun k => if k then some (.write (some 2)) else none
  let s₁ : SnapshotState Bool Nat Unit := { SnapshotState.initial soleStart with
    reader := .reading [some (1, 0, none)] }
  let s₂ := s₁.setRow true { s₁.rows true with marker := some () }
  let s₄ := { s₂ with order := [()] }.setRow true ((s₂.rows true).commit 7 (.write (some 2)))
  have hkeeps {s s' : SnapshotState Bool Nat Unit}
      (hitem : ∀ k, (s'.rows k).item.isSome = (s.rows k).item.isSome) :
      KeepsPresence [false, true] s s' := fun k _ => hitem k
  have happlied : SnapshotGuardedReachable txns soleStart [false, true] s₄ := by
    refine .head ⟨.readFirst (k := false) rfl rfl, hkeeps fun k => rfl⟩ ?_
    refine .head ⟨.prepare (T := ()) (k := true) not_mem_nil rfl rfl,
      hkeeps fun k => by cases k <;> rfl⟩ ?_
    refine .head ⟨.commit (T := ()) not_mem_nil fun k new hmember => ?_, hkeeps fun k => rfl⟩ ?_
    · cases k
      · cases hmember
      · rfl
    exact .single ⟨.apply (k := true) (T := ()) (mem_singleton_self ()) rfl rfl,
      hkeeps fun k => by cases k <;> rfl⟩
  have hrun := happlied.trans (soleReads_answered s₄.rows rfl rfl rfl)
  exact ⟨_, hrun, rfl, transact_get_snapshot txns soleStart [false, true] (fun _ _ _ => rfl)
    (fun _ _ => by change (7 : Int) ≠ 0; decide) (fun _ => by change (7 : Int) ≠ 0; decide) _ hrun⟩

/-- The transaction deletes the first item and replaces the second one, between the reader's first
reads of the two: the answer has the deleted item next to the new one. -/
theorem transact_get_torn : ∃ s, SnapshotReachable
        (soleTxn fun k => if k then some (.write (some 2)) else some (.write none)) soleStart
        [false, true] s ∧ s.reader = .returned [some 1, some 2] [()] ∧
      ¬ s.AnswersSnapshot
        (soleTxn fun k => if k then some (.write (some 2)) else some (.write none)) soleStart
        [false, true] := by
  let txns := soleTxn fun k => if k then some (.write (some 2)) else some (.write none)
  let s₁ : SnapshotState Bool Nat Unit := { SnapshotState.initial soleStart with
    reader := .reading [some (1, 0, none)] }
  let s₂ := s₁.setRow false { s₁.rows false with marker := some () }
  let s₃ := s₂.setRow true { s₂.rows true with marker := some () }
  let s₅ := { s₃ with order := [()] }.setRow false ((s₃.rows false).commit 7 (.write none))
  let s₆ := s₅.setRow true ((s₅.rows true).commit 7 (.write (some 2)))
  have happlied : SnapshotReachable txns soleStart [false, true] s₆ := by
    refine .head (.readFirst (k := false) rfl rfl) ?_
    refine .head (.prepare (T := ()) (k := false) not_mem_nil rfl rfl) ?_
    refine .head (.prepare (T := ()) (k := true) not_mem_nil rfl rfl) ?_
    refine .head (.commit (T := ()) not_mem_nil fun k new _ => by cases k <;> rfl) ?_
    refine .head (.apply (k := false) (T := ()) (mem_singleton_self ()) rfl rfl) ?_
    exact .single (.apply (k := true) (T := ()) (mem_singleton_self ()) rfl rfl)
  -- the first row is gone at the second read, which the comparison accepts
  have hrun : SnapshotReachable txns soleStart [false, true]
      { s₆ with reader := .returned [some 1, some 2] [()] } :=
    happlied.trans (.mono (fun _ _ h => h.1) _ _ (soleReads_answered s₆.rows rfl rfl rfl))
  refine ⟨_, hrun, rfl, fun hsnapshot => ?_⟩
  obtain ⟨order, hsuffix, hitems⟩ := hsnapshot _ _ rfl
  have horder : order = [()] ∨ order = [] := by
    rcases suffix_cons_iff.mp hsuffix with heq | hnil
    · exact .inl heq
    · exact .inr (suffix_nil.mp hnil)
  rcases horder with rfl | rfl
  all_goals exact absurd hitems (by decide)

end ExtendDb.Cassandra
