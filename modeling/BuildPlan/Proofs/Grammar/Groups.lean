import BuildPlan.Proofs.Grammar.Properties

/-! # Configuration groups as they are written

A group is written with its configurations one after another, each with its constants behind a colon
and commas between these. The name of the next configuration is no constant, since it has a colon
behind it. A set of names is written in ascending order, and is the set of the names read. -/

namespace BuildPlan

namespace NameSet

theorem place_eq_append : ∀ {bs : List String} {a : String}, (∀ b ∈ bs, b < a) →
    place a bs = bs ++ [a]
  | [], _, _ => rfl
  | b :: bs, a, h => by
    have hb : b < a := h b (by simp)
    have hab : ¬ a < b := fun hab => String.lt_irrefl a (String.lt_trans hab hb)
    have hne : a ≠ b := by
      rintro rfl
      exact String.lt_irrefl a hb
    rw [place, if_neg hab, if_neg hne, place_eq_append fun c hc => h c (by simp [hc])]
    rfl

/-- Putting ascending names behind ascending names. -/
theorem names_insertAll : ∀ {as : List String} {s : NameSet}, (s.names ++ as).Pairwise (· < ·) →
    (s.insertAll as).names = s.names ++ as
  | [], s, _ => (List.append_nil s.names).symm
  | a :: as, s, h => by
    have hlt : ∀ b ∈ s.names, b < a := fun b hb =>
      (List.pairwise_append.mp h).2.2 b hb a (by simp)
    have hs : (s.insert a).names = s.names ++ [a] := place_eq_append hlt
    have h' : ((s.insert a).names ++ as).Pairwise (· < ·) := by
      rw [hs, List.append_assoc]
      exact h
    have ih := names_insertAll h'
    rw [hs, List.append_assoc] at ih
    exact ih

theorem names_injective {s t : NameSet} (h : s.names = t.names) : s = t := by
  cases s
  cases t
  cases h
  rfl

theorem ofList_names (s : NameSet) : ofList s.names = s :=
  names_injective (names_insertAll (s := empty) s.ascending)

end NameSet

namespace Grammar

open BuildPlan.Grammar.Rule

/-! ### Constants -/

/-- Constants with a comma in front of each of them. -/
def writeMore : List String → List Char
  | [] => []
  | a :: as => ',' :: ' ' :: (a.toList ++ writeMore as)

/-- Constants with commas between them. -/
def writeConstants : List String → List Char
  | [] => []
  | a :: as => a.toList ++ writeMore as

theorem read_constant {a s : List Char} (ha : IsIdentifier a) (hs : Stops isLexical s)
    (hc : (skipTrivia s).head? ≠ some ':') :
    constant.read (a ++ s) = some (String.ofList a, s) := by
  unfold constant
  rw [read_bind, read_identifier ha hs.isNameChar, Option.bind_some, read_bind, read_absent_symbol,
    if_neg hc]
  rfl

/-- A name with a colon behind it is no constant. -/
theorem read_constant_eq_none {a s : List Char} (ha : IsIdentifier a) :
    constant.read (a ++ ':' :: s) = none := by
  unfold constant
  rw [read_bind, read_identifier ha (stops_cons.mpr (by decide)), Option.bind_some, read_bind,
    read_absent_symbol, skipTrivia_cons (by decide) (by decide), if_pos List.head?_cons]
  rfl

/-- What may stand behind the constants of a configuration: a bracket, or the next configuration. -/
structure Follows (s : List Char) : Prop where
  noTrivia : skipTrivia s = s
  noColon : s.head? ≠ some ':'
  noComma : s.head? ≠ some ','
  noConstant : constant.read s = none

section Constants
variable {s : List Char} (hs : Follows s)
include hs

theorem skipTrivia_space_of_follows : skipTrivia (' ' :: s) = s := by
  rw [skipTrivia_blank (by decide), hs.noTrivia]

omit hs in
theorem stops_writeMore (as : List String) : Stops isLexical (writeMore as ++ ' ' :: s) := by
  cases as <;> exact stops_cons.mpr (by decide)

theorem skipTrivia_writeMore (as : List String) :
    (skipTrivia (writeMore as ++ ' ' :: s)).head? ≠ some ':' := by
  cases as with
  | nil =>
    rw [writeMore, List.nil_append, skipTrivia_space_of_follows hs]
    exact hs.noColon
  | cons a as =>
    rw [writeMore, List.cons_append, skipTrivia_cons (by decide) (by decide)]
    simp

/-- One round of the rule for the constants behind the first one. -/
def moreConstant : Rule String := do
  trivia
  symbol ','
  trivia
  constant

theorem repeats_moreConstant : ∀ {as : List String}, (∀ a ∈ as, IsIdentifier a.toList) →
    Repeats moreConstant (writeMore as ++ ' ' :: s) as (' ' :: s)
  | [], _ => by
    refine .stop ?_
    unfold moreConstant
    rw [writeMore, List.nil_append, read_bind, read_trivia, Option.bind_some,
      skipTrivia_space_of_follows hs, read_bind, read_symbol_eq_none hs.noComma]
    rfl
  | a :: as, ha => by
    have hi := ha a (by simp)
    have hr := read_constant hi (stops_writeMore as) (skipTrivia_writeMore hs as)
    refine .step (t := writeMore as ++ ' ' :: s) ?_ ?_
      (repeats_moreConstant fun b hb => ha b (by simp [hb]))
    · unfold moreConstant
      rw [writeMore, List.cons_append, List.cons_append, read_bind, read_trivia, Option.bind_some,
        skipTrivia_cons (by decide) (by decide), read_bind, read_symbol_cons, if_pos rfl,
        Option.bind_some, read_bind, read_trivia, Option.bind_some, skipTrivia_blank (by decide),
        List.append_assoc, skipTrivia_identifier hi, hr, String.ofList_toList]
    · rw [writeMore]
      simp only [List.cons_append, List.length_cons, List.length_append]
      omega

theorem read_constants {as : List String} (ha : ∀ a ∈ as, IsIdentifier a.toList) :
    (padded constants).read (skipTrivia (writeConstants as ++ ' ' :: s)) = some (as, s) := by
  rw [read_padded]
  unfold constants
  rw [read_firstOf_cons, read_firstOf_cons]
  cases as with
  | nil =>
    rw [writeConstants, List.nil_append, skipTrivia_space_of_follows hs, read_bind, hs.noConstant]
    exact congrArg (fun t => some (([] : List String), t)) hs.noTrivia
  | cons a as =>
    have hi := ha a (by simp)
    have hr := read_constant hi (stops_writeMore as) (skipTrivia_writeMore hs as)
    have hrest : ∀ b ∈ as, IsIdentifier b.toList := fun b hb => ha b (by simp [hb])
    have hm := (repeats_moreConstant hs hrest).read_many
    unfold moreConstant at hm
    rw [writeConstants, List.append_assoc, skipTrivia_identifier hi, read_bind, hr,
      Option.bind_some, read_bind, hm, Option.bind_some, read_pure, Option.some_or,
      Option.map_some, skipTrivia_space_of_follows hs, String.ofList_toList]

end Constants

/-! ### Configurations -/

/-- The configurations of a group, with a space behind each of them. -/
def writeMembers : List (String × NameSet) → List Char
  | [] => []
  | (name, constants) :: ms =>
    name.toList ++ ':' :: ' ' :: (writeConstants constants.names ++ ' ' :: writeMembers ms)

/-- The word in front of a group. -/
def groupWord : List Char := ['c', 'o', 'n', 'f', 'i', 'g', 'u', 'r', 'a', 't', 'i', 'o', 'n']

/-- The text of a group. -/
def writeGroup (g : ConfigurationGroup) : List Char :=
  groupWord ++ ' ' :: (g.name.toList ++ ' ' :: '[' :: ' ' ::
    (writeMembers g.members ++ [']']))

/-- The configuration and its constants are identifiers. -/
def MemberWritable (m : String × NameSet) : Prop :=
  IsIdentifier m.1.toList ∧ ∀ a ∈ m.2.names, IsIdentifier a.toList

instance : DecidablePred MemberWritable := fun m =>
  inferInstanceAs (Decidable (IsIdentifier m.1.toList ∧ ∀ a ∈ m.2.names, IsIdentifier a.toList))

theorem writeMembers_cons (m : String × NameSet) (ms : List (String × NameSet)) (s : List Char) :
    writeMembers (m :: ms) ++ s =
      m.1.toList ++ ':' :: ' ' :: (writeConstants m.2.names ++ ' ' :: (writeMembers ms ++ s)) := by
  simp [writeMembers]

theorem follows_writeMembers {ms : List (String × NameSet)} (hms : ∀ m ∈ ms, MemberWritable m)
    (s : List Char) : Follows (writeMembers ms ++ ']' :: s) := by
  cases ms with
  | nil =>
    refine ⟨skipTrivia_cons (by decide) (by decide) s, by simp [writeMembers],
      by simp [writeMembers], ?_⟩
    unfold constant
    rw [writeMembers, List.nil_append, read_bind,
      read_identifier_eq_none (stops_cons.mpr (by decide))]
    rfl
  | cons m ms =>
    have hn := (hms m (by simp)).1
    rw [writeMembers_cons]
    exact ⟨skipTrivia_identifier hn _, hn.head?_ne _ (by decide), hn.head?_ne _ (by decide),
      read_constant_eq_none hn⟩

theorem read_member {m : String × NameSet} (hm : MemberWritable m) {s : List Char}
    (hs : Follows s) :
    member.read (m.1.toList ++ ':' :: ' ' :: (writeConstants m.2.names ++ ' ' :: s)) =
      some (m, s) := by
  have hr := read_constants hs hm.2
  unfold member
  rw [read_bind, read_padded, read_identifier hm.1 (stops_cons.mpr (by decide)), Option.map_some,
    skipTrivia_cons (by decide) (by decide), Option.bind_some, read_bind, read_padded,
    read_symbol_cons, if_pos rfl, Option.map_some, skipTrivia_blank (by decide), Option.bind_some,
    read_bind, hr, Option.bind_some, NameSet.ofList_names, String.ofList_toList]
  rfl

theorem repeats_member (s : List Char) : ∀ {ms : List (String × NameSet)},
    (∀ m ∈ ms, MemberWritable m) → Repeats member (writeMembers ms ++ ']' :: s) ms (']' :: s)
  | [], _ => by
    refine .stop ?_
    unfold member
    rw [writeMembers, List.nil_append, read_bind, read_padded,
      read_identifier_eq_none (stops_cons.mpr (by decide))]
    rfl
  | m :: ms, hms => by
    have hrest : ∀ n ∈ ms, MemberWritable n := fun n hn => hms n (by simp [hn])
    have hr := read_member (hms m (by simp)) (follows_writeMembers hrest s)
    rw [writeMembers_cons]
    refine .step hr ?_ (repeats_member s hrest)
    simp only [List.length_cons, List.length_append]
    omega

/-- The names of a group, its configurations and their constants are identifiers. -/
def GroupWritable (g : ConfigurationGroup) : Prop :=
  IsIdentifier g.name.toList ∧ ∀ m ∈ g.members, MemberWritable m

instance : DecidablePred GroupWritable := fun g =>
  inferInstanceAs (Decidable (IsIdentifier g.name.toList ∧ ∀ m ∈ g.members, MemberWritable m))

theorem writeGroup_append (g : ConfigurationGroup) (s : List Char) :
    writeGroup g ++ s = groupWord ++ ' ' :: (g.name.toList ++ ' ' :: '[' :: ' ' ::
      (writeMembers g.members ++ ']' :: s)) := by
  simp [writeGroup]

theorem read_configurationGroup {g : ConfigurationGroup} (hg : GroupWritable g) (s : List Char) :
    configurationGroup.read (writeGroup g ++ s) = some (g, s) := by
  have hk : ∀ t, (keyword "configuration").read (groupWord ++ ' ' :: t) =
      some ((), ' ' :: t) := by
    intro t
    exact read_keyword (w := groupWord) (by decide) (stops_cons.mpr (by decide)) "configuration"
  have hm := (repeats_member s hg.2).read_many
  unfold configurationGroup
  rw [writeGroup_append, read_bind, read_padded, hk, Option.map_some, skipTrivia_blank (by decide),
    skipTrivia_identifier hg.1, Option.bind_some, read_bind, read_padded,
    read_identifier hg.1 (stops_cons.mpr (by decide)), Option.map_some,
    skipTrivia_blank (by decide), skipTrivia_cons (by decide) (by decide), Option.bind_some,
    read_bind, read_padded, read_symbol_cons, if_pos rfl, Option.map_some,
    skipTrivia_blank (by decide), (follows_writeMembers hg.2 s).noTrivia, Option.bind_some,
    read_bind, hm, Option.bind_some, read_bind, read_symbol_cons, if_pos rfl, Option.bind_some,
    String.ofList_toList]
  rfl

end Grammar

end BuildPlan
