import ExtendDb.Expression.Resolver
import ExtendDb.Types.WireFormat
import Mathlib.Algebra.Order.BigOperators.Group.List

/-!
# Projection expressions

A projection is compiled into a trie, and an item is walked along the trie.  The result is the part
of the item that the paths select, as long as no attribute step and index step of two paths compete
for one list.
-/

namespace ExtendDb

open Fallible List OrdMap

/-! ## Paths with their names resolved -/

inductive ResolvedElement where
  | attr (name : String)
  | index (idx : Nat)
deriving DecidableEq

abbrev ResolvedPath := List ResolvedElement

def resolveElements (maps : ExpressionMaps) : List PathElement → Result ResolvedPath
  | [] => .ok []
  | .attr raw :: path => do
    let name ← resolveNameRef raw maps
    let rest ← resolveElements maps path
    pure (.attr name :: rest)
  | .index idx :: path => do
    let rest ← resolveElements maps path
    pure (.index idx :: rest)

def resolvePaths (maps : ExpressionMaps) : List (List PathElement) → Result (List ResolvedPath)
  | [] => .ok []
  | [] :: paths => resolvePaths maps paths
  | (.index _ :: _) :: _ =>
    .error (.validationException "Invalid expression: path cannot start with an index")
  | path :: paths => do
    let elems ← resolveElements maps path
    let resolved ← resolvePaths maps paths
    pure (elems :: resolved)

/-! ## The paths below a member -/

def below? (e : ResolvedElement) : ResolvedPath → Option ResolvedPath
  | x :: rest => if x = e then some rest else none
  | [] => none

def tails (e : ResolvedElement) (paths : List ResolvedPath) : List ResolvedPath :=
  paths.filterMap (below? e)

theorem mem_tails {e paths p} : p ∈ tails e paths ↔ e :: p ∈ paths := by
  rw [tails, List.mem_filterMap]
  constructor
  · rintro ⟨q, hq, hbelow⟩
    cases q with
    | nil => cases hbelow
    | cons x rest =>
      simp only [below?] at hbelow
      split at hbelow
      · rename_i heq
        cases hbelow
        exact heq ▸ hq
      · cases hbelow
  · exact fun h => ⟨e :: p, h, by simp [below?]⟩

/-! ## The trie -/

structure ProjNode where
  terminal : Bool := false
  attrs : List (String × ProjNode) := []
  indices : List (Nat × ProjNode) := []

namespace ProjNode

def insertPath (node : ProjNode) : ResolvedPath → ProjNode
  | [] => { node with terminal := true }
  | .attr name :: rest =>
    let child := (get? node.attrs name).getD {}
    { node with attrs := insert node.attrs name (child.insertPath rest) }
  | .index idx :: rest =>
    let child := (get? node.indices idx).getD {}
    { node with indices := insert node.indices idx (child.insertPath rest) }
termination_by structural path => path

def buildTrie (resolved : List ResolvedPath) : ProjNode := resolved.foldl insertPath {}

mutual

def projectValue (value : AttributeValue) : ProjNode → Option AttributeValue
  | ⟨terminal, attrs, indices⟩ =>
    if terminal then some value
    else if !attrs.isEmpty then
      match value with
      | .m map =>
        let out := projectAttrs map attrs
        if out.isEmpty then none else some (.m out)
      | _ => none
    else if !indices.isEmpty then
      match value with
      | .l list =>
        let out := projectIndices list indices
        if out.isEmpty then none else some (.l out)
      | _ => none
    else none

/-- The names ascend, so that inserting at the end is inserting. -/
def projectAttrs (map : Item) : List (String × ProjNode) → Item
  | [] => []
  | (name, child) :: attrs =>
    match get? map name with
    | some value =>
      match projectValue value child with
      | some projected => (name, projected) :: projectAttrs map attrs
      | none => projectAttrs map attrs
    | none => projectAttrs map attrs

def projectIndices (list : List AttributeValue) : List (Nat × ProjNode) → List AttributeValue
  | [] => []
  | (idx, child) :: indices =>
    match list[idx]? with
    | some value =>
      match projectValue value child with
      | some projected => projected :: projectIndices list indices
      | none => projectIndices list indices
    | none => projectIndices list indices

end

end ProjNode

/-! ## Compilation -/

def prefixProjectionError : DynamoDbError → DynamoDbError
  | .validationException msg =>
    if "Invalid ".isPrefixOf msg then .validationException msg
    else .validationException ("Invalid ProjectionExpression: " ++ msg)
  | other => other

def ResolvedElement.render : ResolvedElement → String
  | .attr name => name
  | .index idx => "[" ++ toString idx ++ "]"

def renderPath (path : ResolvedPath) : String :=
  "[" ++ ", ".intercalate (path.map ResolvedElement.render) ++ "]"

/-- Reject paths where one is the beginning of another, reporting the first pair. -/
def checkOverlap : List ResolvedPath → Result Unit
  | [] => .ok ()
  | path :: paths =>
    match paths.find? (fun other => path.isPrefixOf other || other.isPrefixOf path) with
    | some other => .error (.validationException
        ("Invalid ProjectionExpression: Two document paths overlap with each other; " ++
          "must remove or rewrite one of these paths; path one: " ++ renderPath path ++
          ", path two: " ++ renderPath other))
    | none => checkOverlap paths

structure CompiledProjection where
  root : ProjNode

namespace CompiledProjection

def compile (paths : List (List PathElement)) (maps : ExpressionMaps) (rejectOverlap : Bool) :
    Result CompiledProjection := do
  let resolved ← (resolvePaths maps paths).mapError prefixProjectionError
  if rejectOverlap then checkOverlap resolved
  pure ⟨.buildTrie resolved⟩

def apply (projection : CompiledProjection) (item : Item) : Item :=
  ProjNode.projectAttrs item projection.root.attrs

end CompiledProjection

/-! ## What paths select -/

mutual

def select (paths : List ResolvedPath) : AttributeValue → Option AttributeValue
  | .m es =>
    if [] ∈ paths then some (.m es)
    else if (selectEntries paths es).isEmpty then none else some (.m (selectEntries paths es))
  | .l vs =>
    if [] ∈ paths then some (.l vs)
    else if (selectElements paths 0 vs).isEmpty then none
    else some (.l (selectElements paths 0 vs))
  | v => if [] ∈ paths then some v else none

def selectEntries (paths : List ResolvedPath) :
    List (String × AttributeValue) → List (String × AttributeValue)
  | [] => []
  | (n, v) :: es =>
    match select (tails (.attr n) paths) v with
    | some w => (n, w) :: selectEntries paths es
    | none => selectEntries paths es

def selectElements (paths : List ResolvedPath) (i : Nat) : List AttributeValue → List AttributeValue
  | [] => []
  | v :: vs =>
    match select (tails (.index i) paths) v with
    | some w => w :: selectElements paths (i + 1) vs
    | none => selectElements paths (i + 1) vs

end

/-- Two paths go on from one place by a name and by an index. -/
def Competing (paths : List ResolvedPath) : Prop :=
  ∃ p n i, (∃ q ∈ paths, p ++ [.attr n] <+: q) ∧ ∃ q ∈ paths, p ++ [.index i] <+: q

variable {paths : List ResolvedPath}

theorem Competing.of_tails {e} (h : Competing (tails e paths)) : Competing paths := by
  obtain ⟨p, n, i, ⟨q, hq, hpq⟩, q', hq', hpq'⟩ := h
  exact ⟨e :: p, n, i, ⟨e :: q, mem_tails.mp hq, cons_prefix_cons.mpr ⟨rfl, hpq⟩⟩,
    e :: q', mem_tails.mp hq', cons_prefix_cons.mpr ⟨rfl, hpq'⟩⟩

/-! ## The trie of a list of paths -/

namespace ProjNode

theorem terminal_foldl (paths : List ResolvedPath) (node) :
    (paths.foldl insertPath node).terminal = (node.terminal || decide ([] ∈ paths)) := by
  induction paths generalizing node with
  | nil => simp
  | cons p paths ih =>
    rw [foldl_cons, ih]
    cases p with
    | nil => simp [insertPath]
    | cons e rest => cases e <;> simp [insertPath]

def child? (node : ProjNode) : ResolvedElement → Option ProjNode
  | .attr n => get? node.attrs n
  | .index i => get? node.indices i

theorem child?_insertPath_self (node : ProjNode) (e) (rest : ResolvedPath) :
    (node.insertPath (e :: rest)).child? e = some (((node.child? e).getD {}).insertPath rest) := by
  cases e <;> exact get?_insert_self ..

theorem child?_insertPath_of_ne (node : ProjNode) {e e'} (h : e ≠ e') (rest : ResolvedPath) :
    (node.insertPath (e :: rest)).child? e' = node.child? e' := by
  cases e <;> cases e' <;>
    first | rfl | exact get?_insert_of_ne _ _ fun heq => h (congrArg _ heq)

variable (paths : List ResolvedPath)

theorem child?_foldl (node : ProjNode) (e) : (paths.foldl insertPath node).child? e =
      if tails e paths = [] then node.child? e
      else some ((tails e paths).foldl insertPath ((node.child? e).getD {})) := by
  induction paths generalizing node with
  | nil => rfl
  | cons p paths ih =>
    rw [foldl_cons, ih]
    cases p with
    | nil => cases e <;> rfl
    | cons f rest =>
      by_cases hf : f = e
      · subst hf
        have htails : tails f ((f :: rest) :: paths) = rest :: tails f paths := by
          simp [tails, below?]
        simp only [child?_insertPath_self, htails, foldl_cons, cons_ne_nil, if_false]
        split
        · rename_i hnil
          rw [hnil, foldl_nil]
        · rfl
      · have htails : tails e ((f :: rest) :: paths) = tails e paths := by simp [tails, below?, hf]
        rw [child?_insertPath_of_ne node hf, htails]

theorem ascending_foldl {node} (h : Ascending node.attrs ∧ Ascending node.indices) :
    Ascending (paths.foldl insertPath node).attrs ∧
      Ascending (paths.foldl insertPath node).indices := by
  induction paths generalizing node with
  | nil => exact h
  | cons p paths ih =>
    refine ih ?_
    cases p with
    | nil => exact h
    | cons e rest =>
      cases e with
      | attr n => exact ⟨h.1.insert n _, h.2⟩
      | index i => exact ⟨h.1, h.2.insert i _⟩

theorem get?_attrs (n) : get? (buildTrie paths).attrs n =
      if tails (.attr n) paths = [] then none else some (buildTrie (tails (.attr n) paths)) :=
  child?_foldl paths {} (.attr n)

theorem get?_indices (i) : get? (buildTrie paths).indices i =
      if tails (.index i) paths = [] then none else some (buildTrie (tails (.index i) paths)) :=
  child?_foldl paths {} (.index i)

theorem ascending : Ascending (buildTrie paths).attrs ∧ Ascending (buildTrie paths).indices :=
  ascending_foldl paths ⟨List.Pairwise.nil, List.Pairwise.nil⟩

theorem terminal_iff : (buildTrie paths).terminal = decide ([] ∈ paths) := by
  rw [buildTrie, terminal_foldl, Bool.false_or]

theorem projectAttrs_eq (map attrs) : projectAttrs map attrs =
      filterMap (fun n child => (get? map n).bind (projectValue · child)) attrs := by
  induction attrs with
  | nil => rfl
  | cons e attrs ih =>
    obtain ⟨name, child⟩ := e
    rw [projectAttrs, OrdMap.filterMap_cons, ih]
    cases get? map name with
    | none => rfl
    | some value => cases h : projectValue value child <;> simp [h]

theorem projectIndices_eq (list indices) : projectIndices list indices =
      (filterMap (fun i child => list[i]?.bind (projectValue · child)) indices).map Prod.snd
        := by
  induction indices with
  | nil => rfl
  | cons e indices ih =>
    obtain ⟨idx, child⟩ := e
    rw [projectIndices, OrdMap.filterMap_cons, ih]
    cases list[idx]? with
    | none => rfl
    | some value => cases h : projectValue value child <;> simp [h]

end ProjNode

theorem selectEntries_eq (paths es) :
    selectEntries paths es = filterMap (fun n => select (tails (.attr n) paths)) es := by
  induction es with
  | nil => rfl
  | cons e es ih =>
    obtain ⟨n, v⟩ := e
    rw [selectEntries, OrdMap.filterMap_cons, ih]
    cases select (tails (.attr n) paths) v <;> rfl

theorem selectElements_eq (paths) (i) (vs) : selectElements paths i vs =
      (OrdMap.filterMap (fun j => select (tails (.index j) paths))
        (OrdMap.indexed i vs)).map Prod.snd := by
  induction vs generalizing i with
  | nil => rfl
  | cons v vs ih =>
    rw [selectElements, OrdMap.indexed, OrdMap.filterMap_cons, ih]
    cases select (tails (.index i) paths) v <;> rfl

/-! ## The trie selects what the paths do -/

theorem select_of_mem (h : [] ∈ paths) (v) : select paths v = some v := by
  cases v <;> simp [select, h]

open AttributeValue

theorem select_eq_of_mem_iff {v paths'} (h : ∀ p, p ∈ paths ↔ p ∈ paths') :
    select paths v = select paths' v := by
  have htails : ∀ {qs qs' : List ResolvedPath}, (∀ p, p ∈ qs ↔ p ∈ qs') → ∀ e p,
      p ∈ tails e qs ↔ p ∈ tails e qs' := by
    intro qs qs' h e p
    rw [mem_tails, mem_tails, h]
  induction v using nested_induction generalizing paths paths' with
  | leaf v hl hm =>
    cases v with
    | l vs => exact absurd rfl (hl vs)
    | m es => exact absurd rfl (hm es)
    | _ => simp only [select, h]
  | list vs ih =>
    have hsame : selectElements paths 0 vs = selectElements paths' 0 vs := by
      rw [selectElements_eq, selectElements_eq]
      exact congrArg _ (filterMap_congr fun e he =>
        ih e.2 (mem_of_mem_indexed he) (htails h (.index e.1)))
    simp [select, h, hsame]
  | map es ih =>
    have hsame : selectEntries paths es = selectEntries paths' es := by
      rw [selectEntries_eq, selectEntries_eq]
      exact filterMap_congr fun e he => ih e he (htails h (.attr e.1))
    simp [select, h, hsame]

theorem select_nil (v) : select [] v = none := by
  induction v using nested_induction with
  | leaf v hl hm =>
    cases v with
    | l vs => exact absurd rfl (hl vs)
    | m es => exact absurd rfl (hm es)
    | _ => rfl
  | list vs ih =>
    have hnone : selectElements [] 0 vs = [] := by
      rw [selectElements_eq, map_eq_nil_iff, OrdMap.filterMap, filterMap_eq_nil_iff]
      intro e he
      rw [show tails (.index e.1) [] = [] from rfl, ih e.2 (OrdMap.mem_of_mem_indexed he)]
      rfl
    simp [select, hnone]
  | map es ih =>
    have hnone : selectEntries [] es = [] := by
      rw [selectEntries_eq, OrdMap.filterMap, filterMap_eq_nil_iff]
      intro e he
      rw [show tails (.attr e.1) [] = [] from rfl, ih e he]
      rfl
    simp [select, hnone]

namespace ProjNode

theorem projectValue_nil (v) : projectValue v (buildTrie []) = none := by
  cases v <;> rfl

variable {paths : List ResolvedPath}

theorem projectAttrs_buildTrie {es} (hes : Ascending es) : projectAttrs es (buildTrie paths).attrs =
      OrdMap.filterMap (fun n v => projectValue v (buildTrie (tails (.attr n) paths))) es := by
  rw [projectAttrs_eq]
  refine ext ((ascending paths).1.filterMap _) (hes.filterMap _) fun n => ?_
  rw [get?_filterMap _ (ascending paths).1, get?_filterMap _ hes, get?_attrs]
  cases get? es n with
  | none => split <;> rfl
  | some w =>
    split
    · rename_i hnil
      rw [hnil]
      exact (projectValue_nil w).symm
    · rfl

theorem projectIndices_buildTrie (vs) : projectIndices vs (buildTrie paths).indices =
      (OrdMap.filterMap (fun i v => projectValue v (buildTrie (tails (.index i) paths)))
        (indexed 0 vs)).map Prod.snd := by
  have hvs := ascending_indexed vs 0
  rw [projectIndices_eq]
  congr 1
  refine ext ((ascending paths).2.filterMap _) (hvs.filterMap _) fun i => ?_
  have hindexed := get?_indexed vs 0 i
  rw [Nat.zero_add] at hindexed
  rw [get?_filterMap _ (ascending paths).2, get?_filterMap _ hvs, get?_indices, hindexed]
  cases vs[i]? with
  | none => split <;> rfl
  | some w =>
    split
    · rename_i hnil
      rw [hnil]
      exact (projectValue_nil w).symm
    · rfl

def AgreesBelow (paths : List ResolvedPath) : Prop :=
  ∀ e w, w.Everywhere AttributeValue.Ordered →
    projectValue w (buildTrie (tails e paths)) = select (tails e paths) w

theorem AgreesBelow.entries (hbelow : AgreesBelow paths) {es} (hes : (m es).Everywhere Ordered) :
    projectAttrs es (buildTrie paths).attrs = selectEntries paths es := by
  rw [projectAttrs_buildTrie hes.self, selectEntries_eq]
  exact filterMap_congr fun e he => hbelow _ e.2 (hes.of_mem_map he)

theorem AgreesBelow.elements (hbelow : AgreesBelow paths) {vs}
    (hvs : (l vs).Everywhere Ordered) :
    projectIndices vs (buildTrie paths).indices = selectElements paths 0 vs := by
  rw [projectIndices_buildTrie, selectElements_eq]
  exact congrArg _ (filterMap_congr fun e he =>
    hbelow _ e.2 (hvs.of_mem_list (mem_of_mem_indexed he)))

variable (paths) in
theorem attrs_ne_nil_iff : (buildTrie paths).attrs ≠ [] ↔ ∃ n, tails (.attr n) paths ≠ [] := by
  constructor
  · intro hattrs
    obtain ⟨⟨n, a⟩, as, has⟩ := exists_cons_of_ne_nil hattrs
    refine ⟨n, fun hnil => ?_⟩
    have := get?_attrs paths n
    simp [has, hnil, get?] at this
  · rintro ⟨n, hn⟩ hnil
    have := get?_attrs paths n
    simp [hnil, hn] at this

/-- Without competing steps a node has children of one kind. -/
theorem indices_eq_nil (hpaths : ¬ Competing paths) (hattrs : (buildTrie paths).attrs ≠ []) :
    (buildTrie paths).indices = [] := by
  by_contra hindices
  obtain ⟨n, hn⟩ := (attrs_ne_nil_iff paths).mp hattrs
  obtain ⟨⟨i, b⟩, bs, hbs⟩ := exists_cons_of_ne_nil hindices
  have hi : tails (.index i) paths ≠ [] := by
    intro hnil
    have := get?_indices paths i
    simp [hbs, hnil, get?] at this
  obtain ⟨p, hp⟩ := exists_mem_of_ne_nil _ hn
  obtain ⟨q, hq⟩ := exists_mem_of_ne_nil _ hi
  exact hpaths ⟨[], n, i, ⟨_, mem_tails.mp hp, by simp⟩, _, mem_tails.mp hq, by simp⟩

theorem projectValue_map (hmem : [] ∉ paths) (es) : projectValue (m es) (buildTrie paths) =
      if (projectAttrs es (buildTrie paths).attrs).isEmpty then none
      else some (m (projectAttrs es (buildTrie paths).attrs)) := by
  have hterminal := terminal_iff paths
  generalize buildTrie paths = node at *
  obtain ⟨terminal, attrs, indices⟩ := node
  cases attrs <;> cases indices <;> simp_all [projectValue, projectAttrs]

theorem projectValue_list (hmem : [] ∉ paths) (vs) : projectValue (l vs) (buildTrie paths) =
      if (buildTrie paths).attrs ≠ [] ∨ (projectIndices vs (buildTrie paths).indices).isEmpty then none
      else some (l (projectIndices vs (buildTrie paths).indices)) := by
  have hterminal := terminal_iff paths
  generalize buildTrie paths = node at *
  obtain ⟨terminal, attrs, indices⟩ := node
  cases attrs <;> cases indices <;> simp_all [projectValue, projectIndices]

theorem projectValue_leaf {v} (hl : ∀ vs, v ≠ l vs) (hm : ∀ es, v ≠ m es) :
    projectValue v (buildTrie paths) = select paths v := by
  have hterminal := terminal_iff paths
  generalize buildTrie paths = node at *
  obtain ⟨terminal, attrs, indices⟩ := node
  subst hterminal
  cases v with
  | l vs => exact absurd rfl (hl vs)
  | m es => exact absurd rfl (hm es)
  | _ => cases attrs <;> cases indices <;> by_cases [] ∈ paths <;> simp_all [projectValue, select]

theorem projectValue_of_below (hpaths : ¬ Competing paths) (hbelow : AgreesBelow paths) {v}
    (hv : v.Everywhere Ordered) :
    projectValue v (buildTrie paths) = select paths v := by
  by_cases hmem : [] ∈ paths
  · have hterminal := terminal_iff paths
    generalize buildTrie paths = node at *
    obtain ⟨terminal, attrs, indices⟩ := node
    subst hterminal
    simp [projectValue, hmem, select_of_mem hmem]
  cases v with
  | m es => rw [projectValue_map hmem, hbelow.entries hv, select, if_neg hmem]
  | l vs =>
    rw [projectValue_list hmem, hbelow.elements hv, select, if_neg hmem]
    by_cases hattrs : (buildTrie paths).attrs = []
    · simp [hattrs]
    · have hnone := hbelow.elements hv
      rw [indices_eq_nil hpaths hattrs, projectIndices] at hnone
      simp [← hnone]
  | _ => exact projectValue_leaf nofun nofun

theorem agreesBelow (k) {paths} (hlen : ∀ p ∈ paths, p.length ≤ k)
    (hpaths : ¬ Competing paths) : AgreesBelow paths := by
  induction k generalizing paths with
  | zero =>
    intro e w _
    rw [eq_nil_iff_forall_not_mem.mpr fun p hp => absurd (hlen _ (mem_tails.mp hp)) (by simp),
      projectValue_nil, select_nil]
  | succ k ih =>
    intro e w hw
    refine projectValue_of_below (fun h => hpaths h.of_tails) (ih ?_ fun h => hpaths h.of_tails) hw
    intro p hp
    exact Nat.le_of_succ_le_succ (hlen _ (mem_tails.mp hp))

end ProjNode

/-! ## A value that competing paths are dropped from -/

/-- A value in which the path resolves. -/
def valueAt : ResolvedPath → AttributeValue
  | [] => .null
  | .attr name :: path => .m [(name, valueAt path)]
  | .index i :: path => .l (List.replicate i .null ++ [valueAt path])

theorem valueAt_ordered (path) : (valueAt path).Everywhere Ordered := by
  induction path with
  | nil => trivial
  | cons e path ih =>
    cases e with
    | attr n => exact ⟨pairwise_singleton _ _, ih, trivial⟩
    | index i =>
      refine ⟨trivial, ?_⟩
      induction i with
      | zero => exact ⟨ih, trivial⟩
      | succ i ihi => exact ⟨trivial, ihi⟩

/-- No path is the beginning of another. -/
def NoOverlap (paths : List ResolvedPath) : Prop := ∀ p ∈ paths, ∀ q ∈ paths, p <+: q → p = q

theorem NoOverlap.tails (h : NoOverlap paths) (e) : NoOverlap (tails e paths) := fun _ hp _ hq hpq =>
  (cons.inj (h _ (mem_tails.mp hp) _ (mem_tails.mp hq) (cons_prefix_cons.mpr ⟨rfl, hpq⟩))).2

theorem noOverlap_of_checkOverlap {u} (h : checkOverlap paths = .ok u) : NoOverlap paths := by
  induction paths with
  | nil => exact fun _ hp => absurd hp not_mem_nil
  | cons path paths ih =>
    rw [checkOverlap] at h
    split at h
    · cases h
    rename_i hnone
    have hapart (other) (hother : other ∈ paths) : ¬ path <+: other ∧ ¬ other <+: path := by
      simpa using find?_eq_none.mp hnone other hother
    rintro p (_ | ⟨_, hp⟩) q (_ | ⟨_, hq⟩) hpq
    · rfl
    · exact absurd hpq (hapart q hq).1
    · exact absurd hpq (hapart p hp).2
    · exact ih h p hp q hq hpq

theorem selectElements_padded {f g : Nat → AttributeValue → Option AttributeValue} {v}
    (hpad : ∀ j, f j .null = g j .null) (k i)
    (h : (OrdMap.filterMap f (indexed k (List.replicate i .null ++ [v]))).map Prod.snd =
      (OrdMap.filterMap g (indexed k (List.replicate i .null ++ [v]))).map Prod.snd) :
    f (k + i) v = g (k + i) v := by
  induction i generalizing k with
  | zero =>
    simp only [replicate_zero, nil_append, indexed, OrdMap.filterMap_cons] at h
    cases hf : f k v <;> cases hg : g k v <;> simp_all [OrdMap.filterMap]
  | succ i ih =>
    simp only [replicate_succ, cons_append, indexed, OrdMap.filterMap_cons, hpad k] at h
    rw [Nat.add_succ, ← Nat.succ_add]
    refine ih (k + 1) ?_
    cases hg : g k .null <;> simp_all

theorem selectElements_ne_nil {vs k j v} (hv : vs[j]? = some v)
    (h : select (tails (.index (k + j)) paths) v ≠ none) : selectElements paths k vs ≠ [] := by
  induction vs generalizing k j with
  | nil => cases hv
  | cons w vs ih =>
    rw [selectElements]
    split
    · exact cons_ne_nil _ _
    rename_i hnone
    cases j with
    | zero =>
      cases hv
      exact absurd hnone h
    | succ j => exact ih hv (by rwa [Nat.add_assoc, Nat.add_comm 1])

theorem select_valueAt {path} (h : path ∈ paths) : select paths (valueAt path) ≠ none := by
  induction path generalizing paths with
  | nil => simp [valueAt, select, h]
  | cons e path ih =>
    have hbelow := ih (mem_tails.mpr h)
    by_cases hmem : [] ∈ paths
    · rw [select_of_mem hmem]
      exact Option.some_ne_none _
    cases e with
    | attr name =>
      obtain ⟨w, hw⟩ := Option.ne_none_iff_exists'.mp hbelow
      simp [valueAt, select, hmem, selectEntries, hw]
    | index i =>
      have hlast : (List.replicate i AttributeValue.null ++ [valueAt path])[i]? =
          some (valueAt path) := by
        simp
      have := selectElements_ne_nil (k := 0) hlast (by rwa [Nat.zero_add])
      simp [valueAt, select, hmem, this]

/-- On the way to a place where paths compete, the trie loses the element that the index selects. -/
theorem projectValue_valueAt (hoverlap : NoOverlap paths) {p name i rest}
    (hattr : ∃ q ∈ paths, p ++ [.attr name] <+: q) (hindex : p ++ .index i :: rest ∈ paths) :
    ProjNode.projectValue (valueAt (p ++ .index i :: rest)) (.buildTrie paths) ≠
      select paths (valueAt (p ++ .index i :: rest)) := by
  have hmem : [] ∉ paths := fun hnil => by
    have := hoverlap _ hnil _ hindex nil_prefix
    cases p <;> cases this
  have hselect := select_valueAt hindex
  induction p generalizing paths with
  | nil =>
    obtain ⟨q, hq, rest', rfl⟩ := hattr
    have hattrs := (ProjNode.attrs_ne_nil_iff paths).mpr ⟨name, ne_nil_of_mem (mem_tails.mpr hq)⟩
    rw [nil_append, valueAt, ProjNode.projectValue_list hmem, if_pos (.inl hattrs)]
    exact hselect.symm
  | cons e p ih =>
    obtain ⟨q, hq, hpq⟩ := hattr
    obtain ⟨q, rfl⟩ : ∃ q', q = e :: q' := by
      obtain ⟨rest', rfl⟩ := hpq
      exact ⟨_, rfl⟩
    have hbelow := ih (hoverlap.tails e) ⟨q, mem_tails.mpr hq, (cons_prefix_cons.mp hpq).2⟩
      (mem_tails.mpr hindex) (fun hnil => by
        have := hoverlap _ (mem_tails.mp hnil) _ hindex (by simp)
        simp at this) (select_valueAt (mem_tails.mpr hindex))
    cases e with
    | attr outer =>
      intro heq
      rw [cons_append, valueAt, ProjNode.projectValue_map hmem,
        ProjNode.projectAttrs_buildTrie (pairwise_singleton _ _), select, if_neg hmem,
        selectEntries_eq] at heq
      simp only [OrdMap.filterMap_cons] at heq
      refine hbelow ?_
      revert heq
      cases ProjNode.projectValue (valueAt (p ++ .index i :: rest))
          (.buildTrie (ExtendDb.tails (.attr outer) paths)) <;>
        cases select (ExtendDb.tails (.attr outer) paths) (valueAt (p ++ .index i :: rest)) <;>
        simp [OrdMap.filterMap]
    | index j =>
      intro heq
      rw [cons_append, valueAt, ProjNode.projectValue_list hmem] at heq
      split at heq
      · exact hselect heq.symm
      rename_i hattrs
      rw [select, if_neg hmem] at heq
      split at heq
      · cases heq
      rw [ProjNode.projectIndices_buildTrie, selectElements_eq] at heq
      have hlast := selectElements_padded (fun _ => ProjNode.projectValue_leaf (v := .null)
        (fun _ h => by cases h) fun _ h => by cases h) 0 j (l.inj (Option.some.inj heq))
      rw [Nat.zero_add] at hlast
      exact hbelow hlast

theorem resolvePaths_attr {paths maps resolved} (h : resolvePaths maps paths = .ok resolved) {q}
    (hq : q ∈ resolved) : ∃ name rest, q = .attr name :: rest := by
  fun_induction resolvePaths maps paths generalizing resolved with
  | case1 =>
    cases h
    cases hq
  | case2 _ ih => exact ih h hq
  | case3 => cases h
  | case4 path paths hindex hne ih =>
    obtain ⟨elems, helems, h⟩ := unbind h
    obtain ⟨rest, hrest, h⟩ := unbind h
    cases h
    rcases mem_cons.mp hq with rfl | hq
    · rcases path with _ | ⟨raw | i, path⟩
      · exact absurd rfl hindex
      · obtain ⟨name, -, helems⟩ := unbind helems
        obtain ⟨tail, -, helems⟩ := unbind helems
        cases helems
        exact ⟨name, tail, rfl⟩
      · exact absurd rfl (hne i path)
    · exact ih hrest hq

theorem CompiledProjection.compile_ok {paths maps projection resolved}
    (hcompile : compile paths maps true = .ok projection)
    (hresolved : resolvePaths maps paths = .ok resolved) :
    projection.root = .buildTrie resolved ∧ NoOverlap resolved := by
  simp only [compile, hresolved] at hcompile
  obtain ⟨_, hpaths, hcompile⟩ := unbind hcompile
  obtain ⟨_, hoverlap, hcompile⟩ := unbind hcompile
  cases hpaths
  cases hcompile
  exact ⟨rfl, noOverlap_of_checkOverlap hoverlap⟩

theorem CompiledProjection.apply_compile {projection : CompiledProjection} {resolved}
    (hroot : projection.root = .buildTrie resolved) (hcompeting : ¬ Competing resolved)
    {item : Item} (hitem : (m item).Everywhere Ordered) :
    projection.apply item = selectEntries resolved item := by
  obtain ⟨k, hk⟩ : ∃ k, ∀ p ∈ resolved, p.length ≤ k :=
    ⟨(resolved.map length).sum, fun p hp => le_sum_of_mem (mem_map_of_mem hp)⟩
  rw [apply, hroot]
  exact (ProjNode.agreesBelow k hk hcompeting).entries hitem

/-- A compiled projection returns the part of every item that its paths select exactly when no two
paths go on from one place by a name and by an index; it then does so in whatever order they are
listed. -/
theorem projection_apply_eq_select (paths : List (List PathElement)) (maps : ExpressionMaps)
    (projection : CompiledProjection) (resolved : List ResolvedPath)
    (hcompile : CompiledProjection.compile paths maps true = .ok projection)
    (hresolved : resolvePaths maps paths = .ok resolved) :
    ((∀ item : Item, (AttributeValue.m item).Everywhere AttributeValue.Ordered →
      projection.apply item = selectEntries resolved item) ↔ ¬ Competing resolved) ∧
    (¬ Competing resolved → ∀ paths' projection' resolved' (item : Item),
      CompiledProjection.compile paths' maps true = .ok projection' →
      resolvePaths maps paths' = .ok resolved' → resolved'.Perm resolved →
      (AttributeValue.m item).Everywhere AttributeValue.Ordered →
      projection'.apply item = projection.apply item) := by
  obtain ⟨hroot, hoverlap⟩ := CompiledProjection.compile_ok hcompile hresolved
  refine ⟨⟨fun hall hcompeting => ?_, fun hcompeting item hitem =>
    CompiledProjection.apply_compile hroot hcompeting hitem⟩, fun hcompeting => ?_⟩
  · obtain ⟨p, name, i, hattr, q, hq, rest, hindex⟩ := hcompeting
    rw [append_assoc, singleton_append] at hindex
    subst hindex
    have hdiffers := projectValue_valueAt hoverlap hattr hq
    -- a path starts with a name, so the value in which it resolves is an item
    obtain ⟨outer, tail, houter⟩ := resolvePaths_attr hresolved hq
    have hordered := valueAt_ordered (p ++ .index i :: rest)
    rw [houter, valueAt] at hdiffers hordered
    have hmem : [] ∉ resolved := fun hnil => by
      have := hoverlap _ hnil _ hq nil_prefix
      rw [houter] at this
      cases this
    refine hdiffers ?_
    rw [ProjNode.projectValue_map hmem, select, if_neg hmem, ← hall _ hordered,
      CompiledProjection.apply, hroot]
  · intro paths' projection' resolved' item hcompile' hresolved' hperm hitem
    have hcompeting' : ¬ Competing resolved' := by
      simpa only [Competing, hperm.mem_iff] using hcompeting
    rw [CompiledProjection.apply_compile (CompiledProjection.compile_ok hcompile' hresolved').1
        hcompeting' hitem, CompiledProjection.apply_compile hroot hcompeting hitem,
      selectEntries_eq, selectEntries_eq]
    refine filterMap_congr fun e _ => select_eq_of_mem_iff fun p => ?_
    rw [mem_tails, mem_tails, hperm.mem_iff]

theorem projection_apply_ascending_indices :
    CompiledProjection.apply ⟨.buildTrie [[.attr "a", .index 2], [.attr "a", .index 0]]⟩
      [("a", .l [.s "x", .s "y", .s "z"])] = [("a", .l [.s "x", .s "z"])] := by
  refine ((projection_apply_eq_select [[.attr "a", .index 2], [.attr "a", .index 0]] ⟨[], []⟩ _
    [[.attr "a", .index 2], [.attr "a", .index 0]] rfl rfl).1.mpr ?_ _ ?_).trans ?_
  · rintro ⟨p, n, i, h, h'⟩
    rcases p with _ | ⟨x, _ | ⟨y, p⟩⟩ <;> simp [cons_prefix_cons] at h h'
  · simp [Everywhere, EverywhereInEntries, EverywhereInList, Ordered, Ascending]
  · decide

/-- The trie node of `a` has a child by name, so that it never looks at the elements of the list. -/
theorem projection_apply_list_dropped :
    ∃ projection, CompiledProjection.compile [[.attr "a", .attr "b"],
      [.attr "a", .index 0]] ⟨[], []⟩ true = .ok projection ∧
    projection.apply [("a", .l [.s "x"])] = [] ∧
    selectEntries [[.attr "a", .attr "b"], [.attr "a", .index 0]] [("a", .l [.s "x"])] =
      [("a", .l [.s "x"])] := by
  refine ⟨_, rfl, ?_, ?_⟩ <;> decide

end ExtendDb
