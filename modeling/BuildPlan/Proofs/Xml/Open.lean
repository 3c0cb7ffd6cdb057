import BuildPlan.Proofs.Xml.Items
import BuildPlan.Proofs.Xml.Splicing
import BuildPlan.Proofs.Xml.Tags

/-! # Fragments that are open for values

A well-formed fragment is open if its references stand in text, in character data and in the values
of attributes that declare no namespace, and nowhere else (`isOpen`). Whatever is spliced into an
open fragment, it stays open and with that well formed (`isOpen_of_spliced`): the tags, the names and
the namespaces are the same, and text and values have gained no marks. -/

namespace BuildPlan.Xml

/-! ### Open fragments -/

/-- The attributes of a start tag, behind its opening bracket, that declare namespaces. -/
def declarationsIn (s : List Char) : List Attribute :=
  match (do
    discard qualifiedName
    attributesUpTo (← get) : Reader (List Attribute × Bool)) s with
  | some ((as, _), _) => as.filter (·.isDeclaration)
  | none => []

/-- Holds if the item in front of the rest has references only in text or character data, or in
values of attributes that declare no namespace. -/
def placesReferences (s rest : List Char) : Bool :=
  match s with
  | '<' :: '!' :: '[' :: _ => true
  | '<' :: s =>
    if s.head?.any isMarker then !decide (Refers (s.take (s.length - rest.length)))
    else (declarationsIn s).all fun a => !decide (Refers a.value)
  | _ => true

/-- Reads items until no element is open, which must be the end of the text, with the references in
their places. The bound is the text itself. -/
def isOpenUpTo : List Char → List OpenElement → List Char → Bool
  | _, [], s => s.isEmpty
  | [], _ :: _, _ => false
  | _ :: bound, opened, s =>
    match item opened s with
    | none => false
    | some (opened, rest) => placesReferences s rest && isOpenUpTo bound opened rest

/-- Holds if the text is well formed between the tags of an element, and its references stand only in
text, in character data and in the values of attributes that declare no namespace. -/
def isOpen (s : List Char) : Bool :=
  let tag : QualifiedName := ⟨[], "fragment".toList⟩
  let s := s ++ "</fragment>".toList
  isOpenUpTo s [⟨tag, []⟩] s

/-- The text is content up to the end of all open elements, with the references in their places. -/
inductive Content : List OpenElement → List Char → Prop where
  | done : Content [] []
  | item {opened opened' : List OpenElement} {s rest : List Char} (ho : opened ≠ [])
      (hi : IsItem opened s opened' rest) (hp : placesReferences s rest = true)
      (hc : Content opened' rest) : Content opened s

variable {opened opened' : List OpenElement} {s s' t rest : List Char}

theorem IsItem.length_lt (h : IsItem opened s opened' rest) : rest.length < s.length := by
  cases h with
  | markup =>
    simp only [List.length_cons, List.length_append]
    omega
  | data h =>
    obtain ⟨rfl, -, -⟩ := (upToMark_eq_some (by decide)).mp h
    simp only [List.length_append, dataMark, List.length_cons]
    omega
  | tag _ ht =>
    obtain ⟨s', as, hname, has, -⟩ := startTag_eq_some.mp ht
    obtain ⟨w, rfl, -, -⟩ := local_qualifiedName hname
    have hlt := has.length_lt
    rw [List.length_cons, List.length_append]
    omega
  | text hs ht =>
    obtain ⟨text, rfl, -, hrest, -⟩ := characters_eq_some.mp ht
    cases text with
    | nil =>
      obtain ⟨c, hc, hne⟩ := hs
      exact absurd (hrest c hc) hne
    | cons c text =>
      simp only [List.length_append, List.length_cons]
      omega

theorem isOpenUpTo_cons (b : Char) (bound : List Char) (e : OpenElement)
    (opened : List OpenElement) (s : List Char) :
    isOpenUpTo (b :: bound) (e :: opened) s =
      match item (e :: opened) s with
      | none => false
      | some (opened, rest) => placesReferences s rest && isOpenUpTo bound opened rest :=
  rfl

theorem closesUpTo_cons (b : Char) (bound : List Char) (e : OpenElement)
    (opened : List OpenElement) (s : List Char) :
    closesUpTo (b :: bound) (e :: opened) s =
      match item (e :: opened) s with
      | none => false
      | some (opened, rest) => closesUpTo bound opened rest :=
  rfl

theorem content_of_isOpenUpTo : ∀ {bound s : List Char} {opened : List OpenElement},
    isOpenUpTo bound opened s = true → Content opened s
  | _, s, [], h => by
    rw [isOpenUpTo, List.isEmpty_iff] at h
    subst h
    exact .done
  | [], _, _ :: _, h => by cases h
  | b :: bound, s, e :: opened, h => by
    rw [isOpenUpTo_cons] at h
    split at h
    · cases h
    · next opened' rest hi =>
      rw [Bool.and_eq_true] at h
      exact .item (List.cons_ne_nil _ _) (item_eq_some.mp hi) h.1 (content_of_isOpenUpTo h.2)

/-- A text is a bound for its own items. -/
theorem Content.isOpenUpTo (h : Content opened s) : ∀ {bound : List Char},
    s.length ≤ bound.length → isOpenUpTo bound opened s = true := by
  induction h with
  | done =>
    intro bound _
    cases bound <;> rfl
  | @item opened opened' s rest ho hi hp _ ih =>
    intro bound hb
    obtain ⟨e, outer, rfl⟩ := List.exists_cons_of_ne_nil ho
    have hlt := hi.length_lt
    cases bound with
    | nil => rw [List.length_nil] at hb; omega
    | cons b bound =>
      rw [List.length_cons] at hb
      rw [isOpenUpTo_cons, item_eq_some.mpr hi]
      dsimp only
      rw [hp, ih (by omega), Bool.and_true]

theorem isOpen_iff : isOpen s = true ↔
    Content [⟨⟨[], "fragment".toList⟩, []⟩] (s ++ "</fragment>".toList) :=
  ⟨content_of_isOpenUpTo, fun h => h.isOpenUpTo le_rfl⟩

theorem closesUpTo_of_isOpenUpTo : ∀ {bound s : List Char} {opened : List OpenElement},
    isOpenUpTo bound opened s = true → closesUpTo bound opened s = true
  | _, _, [], h => by
    rw [isOpenUpTo] at h
    rw [closesUpTo, h]
  | [], _, _ :: _, h => by cases h
  | b :: bound, s, e :: opened, h => by
    rw [isOpenUpTo_cons] at h
    rw [closesUpTo_cons]
    split at h
    · cases h
    · rw [Bool.and_eq_true] at h
      exact closesUpTo_of_isOpenUpTo h.2

/-- An open fragment is well formed. -/
theorem isWellFormed_of_isOpen (h : isOpen s = true) : isWellFormed s = true :=
  closesUpTo_of_isOpenUpTo h

/-! ### Values -/

/-- A reference in a text comes to the value of the text. -/
theorem refers_of_resolveUpTo {plain : Char → Char} (hd : plain '$' = '$') (hp : plain '(' = '(') :
    ∀ {bound s v : List Char}, resolveUpTo plain bound s = some v → Refers s → Refers v
  | _, [], _, _, hs => absurd hs (by decide)
  | [], _ :: _, _, h, _ => by cases h
  | b :: bound, c :: s, v, h, hs => by
    by_cases hc : c = '&'
    · subst hc
      rw [resolveUpTo] at h
      obtain ⟨⟨d, rest⟩, hr, h⟩ := Option.bind_eq_some_iff.mp h
      obtain ⟨u, hu, rfl⟩ := Option.map_eq_some_iff.mp h
      -- no character of the reference begins another one
      obtain ⟨w, rfl, hw, -⟩ := firm_reference hr
      have hskip : ∀ w : List Char, '$' ∉ w → Refers (w ++ rest) → Refers rest := by
        intro w
        induction w with
        | nil => exact fun _ h => h
        | cons e w ih =>
          intro hw h
          rw [List.mem_cons, not_or] at hw
          rcases List.infix_cons_iff.mp h with h | h
          · exact absurd (List.cons_prefix_cons.mp h).1 hw.1
          · exact ih hw.2 h
      have hs : Refers rest := by
        refine hskip ('&' :: (w ++ [';'])) ?_ (by simpa using hs)
        simp only [List.mem_cons, List.mem_append, List.not_mem_nil, or_false, not_or]
        exact ⟨by decide, fun hm => absurd (hw _ hm) (by decide), by decide⟩
      exact (refers_of_resolveUpTo hd hp hu hs).trans (List.suffix_cons d u).isInfix
    · rw [resolveUpTo] at h
      · obtain ⟨u, hu, rfl⟩ := Option.map_eq_some_iff.mp h
        rcases List.infix_cons_iff.mp hs with hs | hs
        · obtain ⟨rfl, hs'⟩ := List.cons_prefix_cons.mp hs
          obtain ⟨s', rfl⟩ := hs'
          cases bound with
          | nil => cases hu
          | cons b' bound =>
            rw [List.singleton_append, resolveUpTo] at hu
            · obtain ⟨u, -, rfl⟩ := Option.map_eq_some_iff.mp hu
              rw [hd, hp]
              exact ⟨[], u, rfl⟩
            · decide
        · exact (refers_of_resolveUpTo hd hp hu hs).trans (List.suffix_cons _ u).isInfix
      · exact hc

theorem joinLineEnds_append_cons {c : Char} (hc : c ≠ '\n') (x y : List Char) :
    joinLineEnds (x ++ c :: y) = joinLineEnds x ++ joinLineEnds (c :: y) := by
  fun_induction joinLineEnds x with
  | case1 x ih =>
    rw [List.cons_append, List.cons_append, joinLineEnds, ih]
    rfl
  | case2 d x hd ih =>
    rw [List.cons_append, joinLineEnds, ih]
    · rfl
    · intro r hr hx
      cases x with
      | nil => exact hc (List.cons.inj hx).1
      | cons e x => exact hd x hr (by rw [(List.cons.inj hx).1])
  | case3 => rfl

theorem refers_attributeValue {v : List Char} (h : attributeValue s = some v) (hs : Refers s) :
    Refers v := by
  refine refers_of_resolveUpTo (by decide) (by decide) h ?_
  obtain ⟨x, y, rfl⟩ := hs
  refine ⟨joinLineEnds x, joinLineEnds y, ?_⟩
  rw [List.append_assoc, List.append_assoc]
  show _ = joinLineEnds (x ++ '$' :: '(' :: y)
  rw [joinLineEnds_append_cons (by decide), joinLineEnds_cons (by decide),
    joinLineEnds_cons (by decide)]
  rfl

/-! ### Attributes with spliced values -/

/-- Two attributes of one name, and of one value if no reference stands in it. -/
structure Edited (a a' : Attribute) : Prop where
  name : a'.name = a.name
  value : ¬ Refers a.value → a'.value = a.value

theorem attributeRead_spliced {a : Attribute} (h : Attribute.read s = some (a, rest))
    (hs : Spliced s t) :
    ∃ a' rest', Attribute.read t = some (a', rest') ∧ Edited a a' ∧ Spliced rest rest' := by
  obtain ⟨q, written, hf, hw⟩ := attributeRead_eq_some.mp h
  have hfront := not_opens (p := isFrontChar) (by decide) (by decide)
  have hq : ¬ Opens q ∧ isCalm q = false := by
    rcases hw.quote with rfl | rfl <;> decide
  obtain ⟨t₁, hf', ht₁⟩ := hs.read_local local_attributeFront hfront hf fun c hc => by
    rw [← Option.some.inj hc]
    exact hq.1
  obtain ⟨t₂, rfl, ht₂⟩ := ht₁.cons_left hq.1
  obtain ⟨written', rest', rfl, hwritten, hrest⟩ := ht₂.split hq.2
  have hvalue : (attributeValue written').isSome = true := by
    rw [attributeValue_isSome]
    refine hwritten.resolvable ((attributeValue_isSome _).mp ?_)
    rw [hw.value]
    rfl
  obtain ⟨v, hv⟩ := Option.isSome_iff_exists.mp hvalue
  refine ⟨⟨a.name, v⟩, rest', attributeRead_eq_some.mpr ⟨q, written', hf', hw.quote, ?_,
    hwritten.not_mem hq.2 hw.unquoted, hwritten.not_mem (by decide) hw.untagged, hv⟩,
    ⟨rfl, fun hn => ?_⟩, hrest⟩
  · exact hwritten.forall_mem isXmlChar_of_isCalm hw.chars
  · have he := hwritten.eq_of_not_refers fun hr => hn (refers_attributeValue hw.value hr)
    rw [he, hw.value] at hv
    exact (Option.some.inj hv).symm

theorem AttributesAre.head {as : List Attribute} {empty : Bool} (h : AttributesAre s as empty rest) :
    ∀ c ∈ s.head?, ¬ Opens c := by
  have hskip : ∀ {d : Char} {s r : List Char}, skipSpaces s = some ((), d :: r) → ¬ Opens d →
      ∀ c ∈ s.head?, ¬ Opens c := by
    intro d s r h hd c hc
    cases s with
    | nil => cases h
    | cons e s =>
      obtain rfl : e = c := Option.some.inj hc
      by_cases he : isSpace e = true
      · exact not_opens (by decide) (by decide) e he
      · have hdrop : (e :: s).dropWhile isSpace = d :: r := congrArg Prod.snd (Option.some.inj h)
        rw [List.dropWhile_cons_of_neg he] at hdrop
        rwa [(List.cons.inj hdrop).1]
  cases h with
  | empty hs => exact hskip hs (by decide)
  | plain hs => exact hskip hs (by decide)
  | next hspace =>
    obtain ⟨d, hd, hds⟩ := hspace
    intro c hc
    obtain rfl : d = c := Option.some.inj (hd.symm.trans hc)
    exact not_opens (by decide) (by decide) d hds

theorem skipSpaces_spliced {s' : List Char} (h : skipSpaces s = some ((), s')) (hs : Spliced s t)
    (hh : ∀ c ∈ s'.head?, ¬ Opens c) : ∃ t', skipSpaces t = some ((), t') ∧ Spliced s' t' :=
  hs.read_local local_skipSpaces (not_opens (by decide) (by decide)) h hh

theorem AttributesAre.spliced {as : List Attribute} {empty : Bool}
    (h : AttributesAre s as empty rest) : ∀ {t : List Char}, Spliced s t →
      ∃ as' rest', AttributesAre t as' empty rest' ∧ List.Forall₂ Edited as as' ∧
        Spliced rest rest' := by
  induction h with
  | empty hs =>
    intro t ht
    obtain ⟨t₁, hs', ht₁⟩ := skipSpaces_spliced hs ht (by simp; decide)
    obtain ⟨t₂, rfl, ht₂⟩ := ht₁.cons_left (by decide)
    obtain ⟨t₃, rfl, ht₃⟩ := ht₂.cons_left (by decide)
    exact ⟨[], t₃, .empty hs', .nil, ht₃⟩
  | plain hs =>
    intro t ht
    obtain ⟨t₁, hs', ht₁⟩ := skipSpaces_spliced hs ht (by simp; decide)
    obtain ⟨t₂, rfl, ht₂⟩ := ht₁.cons_left (by decide)
    exact ⟨[], t₂, .plain hs', .nil, ht₂⟩
  | @next s s' s'' rest a as empty hspace hs ha has ih =>
    intro t ht
    have hfull : AttributesAre s (a :: as) empty rest := .next hspace hs ha has
    -- behind the spaces stands the name of the attribute
    have hname : ∀ c ∈ s'.head?, ¬ Opens c := by
      rintro c hc (rfl | rfl)
      · obtain ⟨r, rfl⟩ := List.head?_eq_some_iff.mp hc
        rw [attributeRead_eq_none (by decide)] at ha
        cases ha
      · obtain ⟨r, rfl⟩ := List.head?_eq_some_iff.mp hc
        rw [attributeRead_eq_none (by decide)] at ha
        cases ha
    obtain ⟨t', hs', ht'⟩ := skipSpaces_spliced hs ht hname
    obtain ⟨a', t'', ha', hedit, ht''⟩ := attributeRead_spliced ha ht'
    obtain ⟨as', rest', has', hedits, hrest⟩ := ih ht''
    obtain ⟨c, hc, hcs⟩ := hspace
    exact ⟨a' :: as', rest', .next ⟨c, by rwa [ht.head?_eq hfull.head], hcs⟩ hs' ha' has',
      .cons hedit hedits, hrest⟩

/-! ### Tags with spliced values -/

section Tags
variable {outer : List (List Char × List Char)} {e : OpenElement} {as as' : List Attribute}

theorem map_name_of_edited (h : List.Forall₂ Edited as as') :
    as'.map Attribute.name = as.map Attribute.name := by
  induction h with
  | nil => rfl
  | cons he _ ih => rw [List.map_cons, List.map_cons, he.name, ih]

/-- The declarations are the same if no reference stands in them. -/
theorem filter_isDeclaration_of_edited (h : List.Forall₂ Edited as as')
    (hd : ∀ a ∈ as, a.isDeclaration = true → ¬ Refers a.value) :
    as'.filter (·.isDeclaration) = as.filter (·.isDeclaration) := by
  induction h with
  | nil => rfl
  | @cons a a' as as' he _ ih =>
    obtain ⟨ha, hd⟩ := List.forall_mem_cons.mp hd
    have hdecl : a'.isDeclaration = a.isDeclaration := by
      unfold Attribute.isDeclaration
      rw [he.name]
    by_cases hdec : a.isDeclaration = true
    · have haa : a' = a := by
        obtain ⟨n, v⟩ := a
        obtain ⟨n', v'⟩ := a'
        rw [Attribute.mk.injEq]
        exact ⟨he.name, he.value (ha hdec)⟩
      rw [haa, List.filter_cons_of_pos hdec, List.filter_cons_of_pos hdec, ih hd]
    · rw [List.filter_cons_of_neg (by rw [hdecl]; exact hdec), List.filter_cons_of_neg hdec, ih hd]

/-- An attribute that declares nothing adds no namespace. -/
theorem declare_of_not_isDeclaration {a : Attribute} (h : ¬ a.isDeclaration = true)
    (declared : List (List Char × List Char)) : declare declared a = some declared := by
  rw [Attribute.isDeclaration, Bool.or_eq_true, decide_eq_true_eq, decide_eq_true_eq, not_or] at h
  rw [declare, if_neg h.1, if_neg h.2]

/-- The declarations alone say which namespaces are declared. -/
theorem foldlM_declare_eq (as : List Attribute) (declared : List (List Char × List Char)) :
    as.foldlM declare declared = (as.filter (·.isDeclaration)).foldlM declare declared := by
  induction as generalizing declared with
  | nil => rfl
  | cons a as ih =>
    by_cases h : a.isDeclaration = true
    · rw [List.filter_cons_of_pos h, List.foldlM_cons, List.foldlM_cons]
      exact bind_congr fun d => ih d
    · rw [List.filter_cons_of_neg h, List.foldlM_cons, declare_of_not_isDeclaration h]
      exact ih declared

/-- The names alone say whether attributes are distinct. -/
theorem distinctAttributes_congr {namespaces : List (List Char × List Char)}
    (h : as'.map Attribute.name = as.map Attribute.name) :
    distinctAttributes namespaces as' = distinctAttributes namespaces as := by
  have hnames : ∀ as : List Attribute,
      (as.mapM fun a => (a.namespace? namespaces).map fun space => (space, a.name.localName)) =
        (as.map Attribute.name).mapM fun n =>
          ((Attribute.mk n []).namespace? namespaces).map fun space => (space, n.localName) := by
    intro as
    induction as with
    | nil => rfl
    | cons a as ih =>
      rw [List.mapM_cons, List.map_cons, List.mapM_cons, ih]
      rfl
  unfold distinctAttributes
  rw [hnames, hnames, h]

/-- Attributes begin the same element with other values, if the declarations are the same. -/
theorem Begins.edited (h : Begins outer as e) (hedits : List.Forall₂ Edited as as')
    (hd : as'.filter (·.isDeclaration) = as.filter (·.isDeclaration)) : Begins outer as' e := by
  refine ⟨h.named, ?_, h.bound, ?_⟩
  · rw [foldlM_declare_eq, hd, ← foldlM_declare_eq]
    exact h.namespaces
  · have hplain : ∀ as : List Attribute, (as.filter (!·.isDeclaration)).map Attribute.name =
        (as.map Attribute.name).filter fun n => !(Attribute.mk n []).isDeclaration := by
      intro as
      rw [List.filter_map]
      rfl
    have hnames : (as'.filter (!·.isDeclaration)).map Attribute.name =
        (as.filter (!·.isDeclaration)).map Attribute.name := by
      rw [hplain, hplain, map_name_of_edited hedits]
    rw [distinctAttributes_congr hnames]
    exact h.distinct

theorem declarationsIn_eq {name : QualifiedName} {s' : List Char} {empty : Bool}
    (hname : qualifiedName s = some (name, s')) (has : AttributesAre s' as empty rest) :
    declarationsIn s = as.filter (·.isDeclaration) := by
  have hread : (do
      discard qualifiedName
      attributesUpTo (← get) : Reader (List Attribute × Bool)) s = some ((as, empty), rest) := by
    have hdiscard : (discard qualifiedName : Reader PUnit) s = some ((), s') := by
      show (qualifiedName >>= fun _ => pure () : Reader PUnit) s = _
      exact Reader.bind_eq_some.mpr ⟨name, s', hname, rfl⟩
    refine Reader.bind_eq_some.mpr ⟨(), s', hdiscard, ?_⟩
    exact Reader.bind_eq_some.mpr ⟨s', s', rfl, has.attributesUpTo le_rfl⟩
  unfold declarationsIn
  rw [hread]

/-- A start tag begins the same element when values are spliced into it, unless a namespace is
declared by one. -/
theorem startTag_spliced {empty : Bool} (h : startTag outer s = some ((e, empty), rest))
    (hd : ∀ a ∈ declarationsIn s, ¬ Refers a.value) (hs : Spliced s t) :
    ∃ rest', startTag outer t = some ((e, empty), rest') ∧ declarationsIn t = declarationsIn s ∧
      t.head? = s.head? ∧ Spliced rest rest' := by
  obtain ⟨s', as, hname, has, hb⟩ := startTag_eq_some.mp h
  have hchar := not_opens (p := isNameChar) (by decide) (by decide)
  obtain ⟨t', hname', ht'⟩ := hs.read_local local_qualifiedName hchar hname has.head
  obtain ⟨as', rest', has', hedits, hrest⟩ := has.spliced ht'
  rw [declarationsIn_eq hname has] at hd
  have hdecl := filter_isDeclaration_of_edited hedits fun a ha hdec =>
    hd a (List.mem_filter.mpr ⟨ha, hdec⟩)
  refine ⟨rest', startTag_eq_some.mpr ⟨t', as', hname', has', hb.edited hedits hdecl⟩, ?_, ?_, hrest⟩
  · rw [declarationsIn_eq hname has, declarationsIn_eq hname' has', hdecl]
  · refine hs.head?_eq fun c hc => ?_
    obtain ⟨w, rfl, hw, -⟩ := local_qualifiedName hname
    cases w with
    | nil => exact has.head c hc
    | cons d w =>
      obtain rfl : d = c := Option.some.inj hc
      exact hchar d (hw d List.mem_cons_self)

end Tags

/-! ### Items with spliced values -/

theorem isCalm_of_mem_dataEnd : ∀ c ∈ dataEnd, isCalm c = false := by
  simp only [dataEnd, List.forall_mem_cons]
  exact ⟨by decide, by decide, by decide, List.forall_mem_nil _⟩

theorem characters_spliced {u : Unit} (h : characters s = some (u, rest)) (hs : Spliced s t) :
    ∃ rest', characters t = some (u, rest') ∧ Spliced rest rest' ∧
      ((∃ c ∈ s.head?, c ≠ '<') → ∃ c ∈ t.head?, c ≠ '<') := by
  obtain ⟨text, rfl, hlt, hrest, hx, hm, hr⟩ := characters_eq_some.mp h
  have hsplit : ∃ text' rest', t = text' ++ rest' ∧ Spliced text text' ∧ Spliced rest rest' ∧
      ∀ c ∈ rest'.head?, c = '<' := by
    cases rest with
    | nil =>
      rw [List.append_nil] at hs
      exact ⟨t, [], (List.append_nil t).symm, hs, .nil, nofun⟩
    | cons c rest =>
      obtain rfl : c = '<' := hrest c rfl
      obtain ⟨text', rest', rfl, htext, hrest'⟩ := hs.split (by decide)
      exact ⟨text', _, rfl, htext, .keep _ hrest', fun c hc => (Option.some.inj hc).symm⟩
  obtain ⟨text', rest', rfl, htext, hspliced, hrest'⟩ := hsplit
  have hlt' : '<' ∉ text' := htext.not_mem (by decide) hlt
  refine ⟨rest', characters_eq_some.mpr ⟨text', rfl, hlt', hrest', ?_, ?_,
    htext.resolvable hr⟩, hspliced, ?_⟩
  · exact htext.forall_mem isXmlChar_of_isCalm hx
  · exact fun hi => hm (htext.isInfix_of_isInfix (by simp) isCalm_of_mem_dataEnd hi)
  · rintro ⟨c, hc, hne⟩
    cases text with
    | nil => exact absurd (hrest c hc) hne
    | cons d text =>
      cases text' with
      | nil => cases htext.nil_right
      | cons d' text' => exact ⟨d', rfl, fun he => hlt' (he ▸ List.mem_cons_self)⟩

theorem placesReferences_text (hs : ∃ c ∈ s.head?, c ≠ '<') : placesReferences s rest = true := by
  obtain ⟨c, hc, hne⟩ := hs
  unfold placesReferences
  split
  · rfl
  · exact absurd (Option.some.inj hc).symm hne
  · rfl

theorem placesReferences_markup {c : Char} (hc : isMarker c = true) {w : List Char}
    (hd : ∀ r, c :: w ≠ '!' :: '[' :: r) (rest : List Char) :
    placesReferences ('<' :: c :: (w ++ '>' :: rest)) rest =
      !decide (Refers (c :: (w ++ ['>']))) := by
  have hd' : ∀ r, c :: (w ++ '>' :: rest) ≠ '!' :: '[' :: r := by
    intro r he
    obtain ⟨rfl, hr⟩ := List.cons.inj he
    cases w with
    | nil => exact absurd (List.cons.inj hr).1 (by decide)
    | cons d w =>
      rw [List.cons_append] at hr
      obtain ⟨rfl, -⟩ := List.cons.inj hr
      exact hd w rfl
  have htake : (c :: (w ++ '>' :: rest)).take ((c :: (w ++ '>' :: rest)).length - rest.length) =
      c :: (w ++ ['>']) := by
    rw [List.append_cons, ← List.cons_append, List.length_append, Nat.add_sub_cancel, List.take_left]
  unfold placesReferences
  split
  · next r he => exact absurd (List.cons.inj he).2 (hd' r)
  · next r _ he =>
    obtain ⟨-, rfl⟩ := List.cons.inj he
    rw [if_pos (by simpa using hc), htake]
  · next hne => exact absurd rfl (hne _)

theorem placesReferences_tag (hs : ∀ c ∈ s.head?, isMarker c = false) :
    placesReferences ('<' :: s) rest =
      (declarationsIn s).all fun a => !decide (Refers a.value) := by
  unfold placesReferences
  split
  · next he =>
    rw [(List.cons.inj he).2] at hs
    exact absurd (hs '!' rfl) (by decide)
  · next he =>
    obtain ⟨-, rfl⟩ := List.cons.inj he
    rw [if_neg]
    cases s with
    | nil => simp
    | cons c s => simpa using hs c rfl
  · next hne => exact absurd rfl (hne _)

/-- Character data ends at the same mark with spliced values in it. -/
theorem upToMark_spliced {w : List Char} (h : upToMark dataEnd s = some (w, rest))
    (hs : Spliced s t) : ∃ w' rest', upToMark dataEnd t = some (w', rest') ∧ Spliced rest rest' := by
  obtain ⟨rfl, hw, hfirst⟩ := (upToMark_eq_some (by decide)).mp h
  obtain ⟨w', t', rfl, hw', ht⟩ := hs.split (c := ']') (by decide)
  obtain ⟨rest', rfl, hrest⟩ := ht.append_left (w := [']', '>']) (by simp [Opens])
  refine ⟨w', rest', (upToMark_eq_some (by decide)).mpr ⟨rfl, ?_, fun x y he => ?_⟩, hrest⟩
  · exact hw'.forall_mem isXmlChar_of_isCalm hw
  · have hmark := hw'.append (.refl dataEnd)
    rw [he] at hmark
    obtain ⟨x', y', he', -, hy⟩ := hmark.unsplit_marks (by decide) isCalm_of_mem_dataEnd
    obtain rfl := hfirst he'
    exact hy.nil_left

/-- **What is spliced into an item leaves it the same item**, if its references are in their places. -/
theorem IsItem.spliced (h : IsItem opened s opened' rest) (hp : placesReferences s rest = true)
    (hs : Spliced s t) :
    ∃ rest', IsItem opened t opened' rest' ∧ placesReferences t rest' = true ∧
      Spliced rest rest' := by
  cases h with
  | @markup c w _ _ hc hd hall =>
    rw [placesReferences_markup hc hd] at hp
    have hw : ¬ Refers ('<' :: c :: w) := by
      intro hr
      have hr' : Refers (c :: w) := by
        rcases List.infix_cons_iff.mp hr with hr | hr
        · exact absurd (List.cons_prefix_cons.mp hr).1 (by decide)
        · exact hr
      have hr'' : Refers (c :: (w ++ ['>'])) := hr'.trans (List.prefix_append (c :: w) ['>']).isInfix
      simp [hr''] at hp
    obtain ⟨rest', rfl, hrest⟩ := hs.split_of_not_refers (w := '<' :: c :: w) (by decide) hw
    exact ⟨rest', .markup hc hd hall, by rw [← hp]; exact placesReferences_markup hc hd rest', hrest⟩
  | data h =>
    obtain ⟨t, rfl, hst⟩ := hs.append_left (by simp [dataMark, Opens])
    obtain ⟨_, rest', h', hrest⟩ := upToMark_spliced h hst
    exact ⟨rest', .data h', rfl, hrest⟩
  | @tag s _ e empty hh ht =>
    obtain ⟨t, rfl, hst⟩ := hs.cons_left (by decide)
    rw [placesReferences_tag hh] at hp
    obtain ⟨rest', ht', hdecl, hhead, hrest⟩ := startTag_spliced ht (by simpa using hp) hst
    have hh' : ∀ c ∈ t.head?, isMarker c = false := hhead ▸ hh
    exact ⟨rest', .tag hh' ht', by rw [placesReferences_tag hh', hdecl, hp], hrest⟩
  | text hh ht =>
    obtain ⟨rest', ht', hrest, hh'⟩ := characters_spliced ht hs
    exact ⟨rest', .text (hh' hh) ht', placesReferences_text (hh' hh), hrest⟩

theorem Content.spliced (h : Content opened s) : ∀ {t : List Char}, Spliced s t →
    Content opened t := by
  induction h with
  | done =>
    intro t ht
    rw [ht.nil_left]
    exact .done
  | item ho hi hp _ ih =>
    intro t ht
    obtain ⟨rest', hi', hp', hrest⟩ := hi.spliced hp ht
    exact .item ho hi' hp' (ih hrest)

/-- **Whatever is spliced into an open fragment, it stays open**, and with that well formed. -/
theorem isOpen_of_spliced (h : isOpen s = true) (hs : Spliced s t) : isOpen t = true :=
  isOpen_iff.mpr ((isOpen_iff.mp h).spliced (hs.append (.refl _)))

example : isOpen "<a b=\"$(B)\">$(C)<![CDATA[<$(D)>]]></a>".toList = true := by decide +kernel

/-- A comment is not open for values, since two hyphens are calm and may not stand in it. -/
example : isOpen "<!--$(A)-->".toList = false ∧ isWellFormed "<!--$(A)-->".toList = true ∧
    Calm "--".toList ∧ isWellFormed "<!------>".toList = false := by
  decide +kernel

end BuildPlan.Xml
