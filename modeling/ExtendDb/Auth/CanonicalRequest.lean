import ExtendDb.Types.AttributeValue
import ExtendDb.Theory.DecimalText

/-!
# The canonical request

The text whose hash a SigV4 signature is made of, and what of a request can be read back from it.
-/

namespace ExtendDb.Auth

open List DecimalText

/-- The header fields as they were received, with their names in lower case. -/
abbrev HeaderMap := List (List Char × Bytes)

def toStr (value : Bytes) : Option (List Char) :=
  if value.all (fun b => 32 ≤ b && b < 127 || b == 9) then
    some (value.map fun b => Char.ofNat b.toNat)
  else none

/-- The maximal runs of characters other than blanks. -/
def splitWhitespace (text : List Char) : List (List Char) :=
  (text.splitBy fun c d => !c.isWhitespace && !d.isWhitespace).filter (·.all (!·.isWhitespace))

def collapse (text : List Char) : List Char := [' '].intercalate (splitWhitespace text)

namespace HeaderMap

section

variable (headers : HeaderMap)

def getAll (name : List Char) : List Bytes :=
  (headers.filter (·.1 == name)).map Prod.snd

/-- The values of a header up to blanks; none for a value that is not visible ASCII. -/
def values (name : List Char) : List (Option (List Char)) :=
  (headers.getAll name).map fun value => (toStr value).map collapse

/-- `headers.get(name)`, which is the first value. -/
def text (name : List Char) : Option (List Char) :=
  (headers.getAll name).head?.bind toStr

def canonicalValue (lower : List Char) : List Char :=
  let value := (headers.text lower).getD []
  collapse (if lower = "host".toList ∧ value = [] then
    (headers.text ":authority".toList).getD value else value)

end

end HeaderMap

def signedNames (signedHeaders : List Char) : List (List Char) :=
  (signedHeaders.map Char.toLower).splitOn ';'

def buildCanonicalHeaders (headers : HeaderMap) (names : List (List Char)) : List Char :=
  names.flatMap fun lower => lower ++ ':' :: (headers.canonicalValue lower ++ ['\n'])

/-- HTTP has no line break in a method, a path or a query. -/
structure SignedRequest where
  method : List Char
  uriPath : List Char
  queryString : List Char
  headers : HeaderMap
  body : Bytes
  oneLine : '\n' ∉ method ∧ '\n' ∉ uriPath ∧ '\n' ∉ queryString

def canonicalRequest (sha256Hex : Bytes → List Char) (signedHeaders : List Char)
    (r : SignedRequest) : List Char :=
  r.method ++ '\n' :: (r.uriPath ++ '\n' :: (r.queryString ++ '\n' ::
    (buildCanonicalHeaders r.headers (signedNames signedHeaders) ++ '\n' ::
      (signedHeaders.map Char.toLower ++ '\n' :: sha256Hex r.body))))

/-! ## Reading it back -/

theorem newline_notMem_collapse (text) : '\n' ∉ collapse text := by
  have hwords : ∀ w ∈ splitWhitespace text, '\n' ∉ w := fun w hw hc =>
    absurd (all_eq_true.mp (mem_filter.mp hw).2 '\n' hc) (by decide)
  unfold collapse
  generalize splitWhitespace text = words at hwords
  induction words with
  | nil => exact not_mem_nil
  | cons w ws ih =>
    have hrest := ih fun v hv => hwords v (.tail _ hv)
    have hw := hwords w (.head _)
    cases ws with
    | nil => rwa [intercalate_singleton]
    | cons v vs => simp [intercalate_cons_cons, hw, hrest]

theorem line_inj {a b x y} (ha : '\n' ∉ a) (hb : '\n' ∉ b) :
    a ++ '\n' :: x = b ++ '\n' :: y ↔ a = b ∧ x = y := by
  refine ⟨fun h => ?_, fun ⟨hab, hxy⟩ => by rw [hab, hxy]⟩
  have hplain {a : List Char} (ha : '\n' ∉ a) : ∀ c ∈ a, (c == '\n') = false := fun c hc =>
    beq_eq_false_iff_ne.mpr (ne_of_mem_of_not_mem hc ha)
  have hsplit := splitOnce_append x (hplain ha) (beq_self_eq_true '\n')
  rw [h, splitOnce_append y (hplain hb) (beq_self_eq_true '\n')] at hsplit
  cases hsplit
  exact ⟨rfl, rfl⟩

theorem buildCanonicalHeaders_inj {h k names x y} :
    buildCanonicalHeaders h names ++ x = buildCanonicalHeaders k names ++ y ↔
      (∀ name ∈ names, h.canonicalValue name = k.canonicalValue name) ∧ x = y := by
  induction names with
  | nil => simp [buildCanonicalHeaders]
  | cons name names ih =>
    have hline (m : HeaderMap) (rest : List Char) : buildCanonicalHeaders m (name :: names) ++ rest =
        name ++ ':' :: (m.canonicalValue name ++ '\n' :: (buildCanonicalHeaders m names ++ rest)) := by
      simp [buildCanonicalHeaders]
    have hvalue (m : HeaderMap) : '\n' ∉ m.canonicalValue name := newline_notMem_collapse _
    rw [hline, hline, append_cancel_left_eq, cons.injEq, line_inj (hvalue h) (hvalue k), ih,
      forall_mem_cons, and_assoc]
    exact and_iff_right rfl

/-- What of a header's values the text leaves out: whether there is a first one, a visible one and a
blank one, and all the values behind it. -/
def HeaderMap.leftOut (headers : HeaderMap) (name : List Char) :
    Option (Option Bool) × List (Option (List Char)) :=
  ((headers.values name).head?.map (·.map List.isEmpty), (headers.values name).tail)

theorem HeaderMap.canonicalValue_of_values {headers : HeaderMap} {name c t rest}
    (h : headers.values name = some (c :: t) :: rest) :
    headers.canonicalValue name = c :: t := by
  obtain ⟨value, others, hall, hvalue, -⟩ := map_eq_cons_iff.mp h
  obtain ⟨text, htext, hcollapse⟩ := Option.map_eq_some_iff.mp hvalue
  have hfirst : headers.text name = some text := by simp [HeaderMap.text, hall, htext]
  -- a text that is not blank is not empty, so no `:authority` stands for it
  have hne : text ≠ [] := fun hnil => by
    rw [hnil] at hcollapse
    cases hcollapse
  rw [canonicalValue, hfirst, Option.getD_some, if_neg fun h => hne h.2, hcollapse]

theorem HeaderMap.values_eq_iff {headers others : HeaderMap} {name}
    (h : headers.canonicalValue name = others.canonicalValue name) :
    headers.values name = others.values name ↔ headers.leftOut name = others.leftOut name := by
  refine ⟨fun heq => by rw [leftOut, leftOut, heq], fun heq => ?_⟩
  obtain ⟨hfirst, hrest⟩ := Prod.mk.inj heq
  rcases hv : headers.values name with _ | ⟨_ | _ | ⟨c, t⟩, vs⟩ <;>
    rcases hw : others.values name with _ | ⟨_ | _ | ⟨d, u⟩, ws⟩ <;>
    rw [hv, hw] at hfirst hrest <;> cases hfirst <;> cases hrest <;> try rfl
  rw [← canonicalValue_of_values hv, ← canonicalValue_of_values hw, h]

def repeatedTarget (second : UInt8) : SignedRequest where
  method := "POST".toList
  uriPath := ['/']
  queryString := []
  headers := [("host".toList, [97]), ("target".toList, [97]), ("target".toList, [second])]
  body := []
  oneLine := by decide

end ExtendDb.Auth
