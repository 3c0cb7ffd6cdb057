import BuildPlan.Proofs.Xml.Reading

/-! # Start tags

What the attributes of a start tag are, as a relation without a bound (`AttributesAre`), and what a
start tag is (`startTag_eq_some`). -/

namespace BuildPlan.Xml

variable {s rest : List Char} {a : Attribute} {as : List Attribute} {empty : Bool}

/-! ### One attribute -/

/-- The characters of an attribute in front of its value. -/
def isFrontChar (c : Char) : Bool := isNameChar c || isSpace c || c == '='

/-- The name of an attribute, up to the quote before its value. -/
def attributeFront : Reader QualifiedName := do
  let name ← qualifiedName
  skipSpaces
  expect '='
  skipSpaces
  return name

theorem local_expect {p : Char → Bool} {e : Char} (he : p e = true) : Local p (expect e) := by
  intro s u rest h
  obtain ⟨w, rfl, hw, hall⟩ := firm_expect (p := p) e h
  exact ⟨w ++ [e], by simp, List.forall_mem_append.mpr ⟨hw, by simpa using he⟩,
    fun t _ => by simpa using hall t⟩

theorem local_attributeFront : Local isFrontChar attributeFront := by
  have hname : ∀ c, isNameChar c = true → isFrontChar c = true := by
    intro c hc
    rw [isFrontChar, hc, Bool.true_or, Bool.true_or]
  have hspace : ∀ c, isSpace c = true → isFrontChar c = true := by
    intro c hc
    rw [isFrontChar, hc, Bool.or_true, Bool.true_or]
  refine (local_qualifiedName.mono hname).bind fun name => ?_
  refine (local_skipSpaces.mono hspace).bind fun _ => ?_
  exact (local_expect (by decide)).bind fun _ =>
    (local_skipSpaces.mono hspace).bind fun _ => local_pure name

/-- The value of an attribute of this name, behind the quote that begins it. -/
def quoted (name : QualifiedName) (quote : Char) : Reader Attribute := do
  let written ← takeRun fun c => c != quote && c != '<'
  expect quote
  if written.all isXmlChar then
    let value ← (attributeValue written : Option (List Char))
    return ⟨name, value⟩
  else failure

theorem attributeRead_eq : Attribute.read = attributeFront >>= fun name => fun s =>
    match s with
    | '"' :: rest => quoted name '"' rest
    | '\'' :: rest => quoted name '\'' rest
    | _ => none := by
  have hassoc : Attribute.read = attributeFront >>= fun name => (do
      match ← get with
      | '"' :: rest => do set rest; quoted name '"'
      | '\'' :: rest => do set rest; quoted name '\''
      | _ => failure : Reader Attribute) := by
    unfold Attribute.read attributeFront
    simp only [bind_assoc, pure_bind]
    rfl
  rw [hassoc]
  refine bind_congr fun name => ?_
  funext s
  show (match s with
    | '"' :: rest => _
    | '\'' :: rest => _
    | _ => _ : Reader Attribute) s = _
  split <;> rfl

/-- The text stands between two of the quotes, and is the written value of the attribute. -/
structure Writes (a : Attribute) (q : Char) (written : List Char) : Prop where
  quote : q = '"' ∨ q = '\''
  chars : ∀ c ∈ written, isXmlChar c = true
  unquoted : q ∉ written
  untagged : '<' ∉ written
  value : attributeValue written = some a.value

theorem quoted_eq_some {name : QualifiedName} {q : Char} (hq : q = '"' ∨ q = '\'') :
    quoted name q s = some (a, rest) ↔
      a.name = name ∧ ∃ written, s = written ++ q :: rest ∧ Writes a q written := by
  unfold quoted
  constructor
  · intro h
    obtain ⟨written, s', ht, htail⟩ := Reader.bind_eq_some.mp h
    obtain ⟨_, s'', he, hread⟩ := Reader.bind_eq_some.mp htail
    obtain ⟨rfl, hw, -⟩ := takeRun_eq_some.mp ht
    obtain rfl := eq_of_expect he
    split at hread
    · next hx =>
      cases hval : attributeValue written with
      | none =>
        rw [hval] at hread
        cases hread
      | some v =>
        rw [hval] at hread
        cases hread
        refine ⟨rfl, written, rfl, hq, List.all_eq_true.mp hx, fun hm => ?_, fun hm => ?_, hval⟩
        · simpa using hw q hm
        · simpa using hw '<' hm
    · cases hread
  · rintro ⟨rfl, written, rfl, hw⟩
    refine Reader.bind_eq_some.mpr ⟨written, q :: rest, takeRun_eq_some.mpr ⟨rfl, fun c hc => ?_,
      fun c hc => ?_⟩, Reader.bind_eq_some.mpr ⟨(), rest, if_pos rfl, ?_⟩⟩
    · have hcq : c ≠ q := fun he => hw.unquoted (he ▸ hc)
      have hct : c ≠ '<' := fun he => hw.untagged (he ▸ hc)
      simp [hcq, hct]
    · obtain rfl : q = c := Option.some.inj hc
      simp
    · rw [if_pos (List.all_eq_true.mpr hw.chars), hw.value]
      rfl

/-- **What an attribute is**: a name, and a value between two of the same quotes. -/
theorem attributeRead_eq_some :
    Attribute.read s = some (a, rest) ↔
      ∃ q written, attributeFront s = some (a.name, q :: (written ++ q :: rest)) ∧
        Writes a q written := by
  rw [attributeRead_eq, Reader.bind_eq_some]
  constructor
  · rintro ⟨name, s', hf, h⟩
    split at h
    · obtain ⟨rfl, written, rfl, hw⟩ := (quoted_eq_some (Or.inl rfl)).mp h
      exact ⟨'"', written, hf, hw⟩
    · obtain ⟨rfl, written, rfl, hw⟩ := (quoted_eq_some (Or.inr rfl)).mp h
      exact ⟨'\'', written, hf, hw⟩
    · cases h
  · rintro ⟨q, written, hf, hw⟩
    refine ⟨a.name, _, hf, ?_⟩
    rcases hw.quote with rfl | rfl
    · exact (quoted_eq_some (Or.inl rfl)).mpr ⟨rfl, written, rfl, hw⟩
    · exact (quoted_eq_some (Or.inr rfl)).mpr ⟨rfl, written, rfl, hw⟩

/-! ### The attributes of a tag -/

/-- An attribute begins with a character of a name. -/
theorem attributeRead_eq_none {c : Char} (hc : isNameChar c = false) :
    Attribute.read (c :: s) = none := by
  have hpart : isPart c = false := by rw [isPart, hc, Bool.false_and]
  have hcolon : c ≠ ':' := by
    rintro rfl
    exact absurd hc (by decide)
  have hname : qualifiedName (c :: s) = none := by
    rw [qualifiedName_eq]
    show behindPart ((c :: s).takeWhile isPart) ((c :: s).dropWhile isPart) = none
    rw [List.takeWhile_cons_of_neg (by simp [hpart]), List.dropWhile_cons_of_neg (by simp [hpart])]
    unfold behindPart
    rw [if_neg (by simpa using hcolon)]
    rfl
  show (qualifiedName (c :: s)).bind _ = none
  rw [hname]
  rfl

/-- These are the attributes of a tag, which is empty or not, up to its end. Spaces stand before every
one. -/
inductive AttributesAre : List Char → List Attribute → Bool → List Char → Prop where
  | empty {s rest : List Char} (hs : skipSpaces s = some ((), '/' :: '>' :: rest)) :
      AttributesAre s [] true rest
  | plain {s rest : List Char} (hs : skipSpaces s = some ((), '>' :: rest)) :
      AttributesAre s [] false rest
  | next {s s' s'' rest : List Char} {a : Attribute} {as : List Attribute} {empty : Bool}
      (hspace : ∃ c ∈ s.head?, isSpace c = true) (hs : skipSpaces s = some ((), s'))
      (ha : Attribute.read s' = some (a, s'')) (has : AttributesAre s'' as empty rest) :
      AttributesAre s (a :: as) empty rest

theorem attributesUpTo_cons (b : Char) (bound s : List Char) : attributesUpTo (b :: bound) s =
    match s.dropWhile isSpace with
    | '/' :: r => (expect '>' >>= fun _ => pure ([], true) : Reader _) r
    | '>' :: r => some (([], false), r)
    | r =>
      if s.head?.any isSpace then
        (Attribute.read >>= fun a => attributesUpTo bound >>= fun p => pure (a :: p.1, p.2) :
          Reader _) r
      else none := by
  rw [attributesUpTo]
  show (match s.dropWhile isSpace with
    | '/' :: r => _
    | '>' :: r => _
    | r => _ : Reader _) (s.dropWhile isSpace) = _
  generalize s.dropWhile isSpace = r
  split
  · rfl
  · rfl
  · split <;> rfl

theorem attributesAre_of_attributesUpTo : ∀ {bound s rest : List Char} {as : List Attribute}
    {empty : Bool}, attributesUpTo bound s = some ((as, empty), rest) →
      AttributesAre s as empty rest
  | [], _, _, _, _, h => by cases h
  | b :: bound, s, rest, as, empty, h => by
    rw [attributesUpTo_cons] at h
    have hskip : skipSpaces s = some ((), s.dropWhile isSpace) := rfl
    split at h
    · next r hr =>
      obtain ⟨_, r', he, h⟩ := Reader.bind_eq_some.mp h
      cases h
      rw [eq_of_expect he] at hr
      exact .empty (hskip.trans (by rw [hr]))
    · next r hr =>
      cases h
      exact .plain (hskip.trans (by rw [hr]))
    · split at h
      · next hspace =>
        obtain ⟨a, s'', ha, h⟩ := Reader.bind_eq_some.mp h
        obtain ⟨⟨as', empty'⟩, s₃, has, h⟩ := Reader.bind_eq_some.mp h
        cases h
        have hfront : ∃ c ∈ s.head?, isSpace c = true := by
          cases s with
          | nil => cases hspace
          | cons c s => exact ⟨c, rfl, hspace⟩
        exact .next hfront hskip ha (attributesAre_of_attributesUpTo has)
      · cases h

theorem length_lt_of_attributeRead {s' : List Char} (h : Attribute.read s = some (a, s')) :
    s'.length < s.length := by
  obtain ⟨q, written, hf, -⟩ := attributeRead_eq_some.mp h
  obtain ⟨w, rfl, -, -⟩ := local_attributeFront hf
  simp only [List.length_append, List.length_cons]
  omega

theorem length_le_of_skipSpaces {s' : List Char} (h : skipSpaces s = some ((), s')) :
    s'.length ≤ s.length := by
  cases h
  exact (List.dropWhile_suffix _).length_le

theorem AttributesAre.length_lt (h : AttributesAre s as empty rest) : rest.length < s.length := by
  induction h with
  | empty hs =>
    have hle := length_le_of_skipSpaces hs
    simp only [List.length_cons] at hle
    omega
  | plain hs =>
    have hle := length_le_of_skipSpaces hs
    simp only [List.length_cons] at hle
    omega
  | next _ hs ha _ ih =>
    have hle := length_le_of_skipSpaces hs
    have hlt := length_lt_of_attributeRead ha
    omega

/-- A text is a bound for the attributes that it begins with. -/
theorem AttributesAre.attributesUpTo (h : AttributesAre s as empty rest) :
    ∀ {bound : List Char}, s.length ≤ bound.length →
      attributesUpTo bound s = some ((as, empty), rest) := by
  have hdrop : ∀ {s s' : List Char}, skipSpaces s = some ((), s') → s.dropWhile isSpace = s' := by
    intro s s' h
    cases h
    rfl
  induction h with
  | empty hs =>
    intro bound hb
    cases bound with
    | nil => rw [List.length_eq_zero_iff.mp (Nat.le_zero.mp hb)] at hs; cases hs
    | cons b bound =>
      rw [attributesUpTo_cons, hdrop hs]
      rfl
  | plain hs =>
    intro bound hb
    cases bound with
    | nil => rw [List.length_eq_zero_iff.mp (Nat.le_zero.mp hb)] at hs; cases hs
    | cons b bound =>
      rw [attributesUpTo_cons, hdrop hs]
      rfl
  | @next s s' s'' rest a as empty hspace hs ha _ ih =>
    intro bound hb
    obtain ⟨c, hc, hcs⟩ := hspace
    cases bound with
    | nil => rw [List.length_eq_zero_iff.mp (Nat.le_zero.mp hb)] at hc; cases hc
    | cons b bound =>
      have hlen : s''.length ≤ bound.length := by
        have hle := length_le_of_skipSpaces hs
        have hlt := length_lt_of_attributeRead ha
        rw [List.length_cons] at hb
        omega
      have hread : (Attribute.read >>= fun a => Xml.attributesUpTo bound >>= fun p =>
          pure (a :: p.1, p.2) : Reader _) s' = some ((a :: as, empty), rest) :=
        Reader.bind_eq_some.mpr ⟨a, s'', ha, Reader.bind_eq_some.mpr ⟨_, rest, ih hlen, rfl⟩⟩
      have hany : s.head?.any isSpace = true := by rw [Option.mem_def.mp hc, Option.any_some, hcs]
      rw [attributesUpTo_cons, hdrop hs]
      split
      · rw [attributeRead_eq_none (by decide)] at ha
        cases ha
      · rw [attributeRead_eq_none (by decide)] at ha
        cases ha
      · rw [if_pos hany]
        exact hread

/-! ### A start tag -/

/-- The element of this name and its attributes is bound, and the attributes are distinct. -/
structure Begins (outer : List (List Char × List Char)) (as : List Attribute) (e : OpenElement) : Prop
    where
  named : e.name.qualifier ≠ declarationName
  namespaces : ∃ declared, as.foldlM declare [] = some declared ∧ e.namespaces = declared ++ outer
  bound : e.name.qualifier = [] ∨ (e.namespaces.lookup e.name.qualifier).isSome = true
  distinct : distinctAttributes e.namespaces (as.filter (!·.isDeclaration)) = true

/-- **What a start tag is**: a name and attributes that begin an element. -/
theorem startTag_eq_some {outer : List (List Char × List Char)} {e : OpenElement} :
    startTag outer s = some ((e, empty), rest) ↔
      ∃ s' as, qualifiedName s = some (e.name, s') ∧ AttributesAre s' as empty rest ∧
        Begins outer as e := by
  unfold startTag
  rw [Reader.bind_eq_some]
  constructor
  · rintro ⟨name, s', hname, h⟩
    dsimp only at h
    split at h
    · cases h
    · next hq =>
      obtain ⟨_, _, hget, h⟩ := Reader.bind_eq_some.mp h
      cases hget
      obtain ⟨⟨as, empty'⟩, s'', has, h⟩ := Reader.bind_eq_some.mp h
      obtain ⟨declared, _, hd, h⟩ := Reader.bind_eq_some.mp h
      cases hfold : as.foldlM declare [] with
      | none =>
        rw [hfold] at hd
        cases hd
      | some d =>
        rw [hfold] at hd
        cases hd
        dsimp only at h
        split at h
        · next hb =>
          cases h
          rw [Bool.and_eq_true, Bool.or_eq_true, List.isEmpty_iff] at hb
          exact ⟨s', as, hname, attributesAre_of_attributesUpTo has,
            ⟨hq, ⟨declared, hfold, rfl⟩, hb.1, hb.2⟩⟩
        · cases h
  · rintro ⟨s', as, hname, has, ⟨hq, ⟨declared, hfold, hns⟩, hb, hd⟩⟩
    obtain ⟨name, namespaces⟩ := e
    dsimp only at hname hq hns hb hd
    subst hns
    refine ⟨name, s', hname, ?_⟩
    rw [if_neg hq]
    refine Reader.bind_eq_some.mpr ⟨s', s', rfl, ?_⟩
    refine Reader.bind_eq_some.mpr ⟨(as, empty), rest, has.attributesUpTo le_rfl, ?_⟩
    refine Reader.bind_eq_some.mpr ⟨declared, rest, by rw [hfold]; rfl, ?_⟩
    rw [if_pos]
    · rfl
    · rw [Bool.and_eq_true, Bool.or_eq_true, List.isEmpty_iff]
      exact ⟨hb, hd⟩

end BuildPlan.Xml
