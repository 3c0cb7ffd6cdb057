import Std.Data.HashMap
import BuildPlan.Pattern.Regex.Basic
import BuildPlan.Pattern.Regex.Bytes

/-! # The size of expressions

An expression is accepted if the automata that follow it over the bytes of a text, forwards and
backwards, do not grow over a limit. The automata are laid out here as far as their size depends on
it: a state has a fixed size, and so has each way out of a state that has several. A fork takes ways
on until it is complete, so that a part of an automaton is known by whether it ends in a fork.

A set of characters is laid out byte by byte, and states with the same ways on are shared as long as
they are remembered. A state is remembered in the place that is computed from it, until another
state takes that place. -/

namespace BuildPlan.Regex

open BuildPlan.Text

/-- The states of an automaton so far, and the bytes for the ways out of those with several. -/
structure Layout where
  states : Nat
  waysBytes : Nat
  deriving DecidableEq, Repr

namespace Layout

/-- The greatest number of bytes of an automaton. -/
def limit : Nat := 10 * 1024 * 1024

/-- The number of bytes of an automaton: 32 for each state, and those of its ways. -/
def bytes (l : Layout) : Nat := 32 * l.states + l.waysBytes

end Layout

/-- A layout under the limit. -/
abbrev Build (α : Type) : Type := StateT Layout Option α

/-- Adds states, with bytes for their ways. -/
def addStates (states waysBytes : Nat) : Build Unit := do
  let l : Layout ← get
  let l : Layout := ⟨l.states + states, l.waysBytes + waysBytes⟩
  if l.bytes ≤ Layout.limit then set l else failure

/-- Adds a state with one way on. The answer is its number. -/
def addState : Build Nat := do
  let l : Layout ← get
  addStates 1 0
  return l.states

/-- Adds a fork with so many ways on. -/
def addFork (ways : Nat) : Build Unit := addStates 1 (4 * ways)

/-- Adds a state with a way on for each of so many ranges of bytes. The answer is its number. -/
def addChoice (ways : Nat) : Build Nat := do
  let l : Layout ← get
  addStates 1 (8 * ways)
  return l.states

/-- Leads on from the end of a part, which takes one more way if it is a fork. -/
def leadOn (fork : Bool) : Build Unit := if fork then addStates 0 4 else return ()

/-! ### Sets of characters -/

/-- The start of the hash of a state. -/
def hashStart : UInt64 := 14695981039346656037

/-- The hash with one more number of the state. -/
def hashStep (h : UInt64) (n : Nat) : UInt64 := (h ^^^ n.toUInt64) * 1099511628211

/-- States of the type `α` with their numbers, each in its place. -/
abbrev Memory (α : Type) : Type := Std.HashMap Nat (α × Nat)

/-- The number of a state that is remembered in the given place. -/
def Memory.find? {α : Type} [BEq α] (m : Memory α) (place : Nat) (state : α) : Option Nat :=
  match m[place]? with
  | some (known, number) => if known == state then some number else none
  | none => none

/-- A way on: a range of bytes, and the state that it leads to. -/
structure Way where
  bytes : ByteRange
  target : Nat
  deriving DecidableEq, Repr

/-- A state that is not complete: its ways so far, and the range of bytes of one whose target is not
known yet. -/
structure OpenState where
  ways : Array Way
  last : Option ByteRange

/-- The state when the target of its last way is known. -/
def OpenState.close (target : Nat) (s : OpenState) : OpenState :=
  match s.last with
  | some bytes => ⟨s.ways.push ⟨bytes, target⟩, none⟩
  | none => s

/-- The place of a state with the given ways in a memory of 10,000. -/
def waysPlace (ways : Array Way) : Nat :=
  (ways.foldl (fun h w => hashStep (hashStep (hashStep h w.bytes.1) w.bytes.2) w.target)
    hashStart).toNat % 10000

/-- A layout of a set of characters, with the states that are remembered. -/
abbrev SetBuild (α : Type) : Type := StateT (Memory (Array Way)) (StateT Layout Option) α

/-- The number of a state with the given ways, which is added if it is not remembered. -/
def addShared (ways : Array Way) : SetBuild Nat := do
  let place := waysPlace ways
  match Memory.find? (← get) place ways with
  | some number => return number
  | none => do
    let number ← addChoice ways.size
    modify (·.insert place (ways, number))
    return number

/-- Completes a chain of states from its end, where the last one leads to the given state. The answer
is the number of the first one. -/
def closeChain (target : Nat) : List OpenState → SetBuild Nat
  | [] => return target
  | s :: more => do
    let next ← closeChain target more
    addShared (s.close next).ways

/-- Completes what is behind the first states of a chain. The answer is the chain that is left. -/
def closeBehind (target : Nat) : Nat → List OpenState → SetBuild (List OpenState)
  | _, [] => return []
  | 0, s :: more => do
    let next ← closeChain target more
    return [s.close next]
  | n + 1, s :: more => do return s :: (← closeBehind target n more)

/-- The number of states of a chain that a sequence goes on with as the one before did. -/
def sharedStates : List ByteRange → List OpenState → Nat
  | r :: rs, s :: more => if s.last == some r then sharedStates rs more + 1 else 0
  | _, _ => 0

/-- The chain with a sequence of ranges behind it, the first of them at its last state. -/
def extendChain (rs : List ByteRange) : List OpenState → List OpenState
  | [] => []
  | [s] =>
    match rs with
    | [] => [s]
    | r :: rs => { s with last := some r } :: rs.map fun r => ⟨#[], some r⟩
  | s :: more => s :: extendChain rs more

/-- Lays out the sequences of a set one after the other, behind the chain of the one before. -/
def addSequences (target : Nat) : List (List ByteRange) → List OpenState → SetBuild Nat
  | [], chain => do
    let chain ← closeBehind target 0 chain
    match chain with
    | s :: _ => addShared s.ways
    | [] => return target
  | rs :: more, chain => do
    let shared := sharedStates rs chain
    let chain ← closeBehind target shared chain
    addSequences target more (extendChain (rs.drop shared) chain)

/-- A set of characters forwards. States that end alike are shared. -/
def addSet (s : CharSet) : Build Unit := do
  let target ← addState
  let _ ← (addSequences target (byteSequences s) [⟨#[], none⟩]).run ∅

/-- The place of a state for a range of bytes that leads to a target in a memory of 1000. -/
def rangePlace (target : Nat) (r : ByteRange) : Nat :=
  (hashStep (hashStep (hashStep hashStart target) r.1) r.2).toNat % 1000

/-- Lays out a sequence from its first byte, which is met last, to the target of all. The answer is
the number of the state for its last byte. -/
def addBackwards (target : Nat) : List ByteRange → StateT (Memory Way) (StateT Layout Option) Nat
  | [] => return target
  | r :: rs => do
    let way : Way := ⟨r, target⟩
    let place := rangePlace target r
    match Memory.find? (← get) place way with
    | some number => addBackwards number rs
    | none => do
      let number ← addState
      modify (·.insert place (way, number))
      addBackwards number rs

/-- A set of characters backwards: a fork with a way to the last byte of every sequence. -/
def addSetBackwards (s : CharSet) : Build Unit := do
  addFork 0
  let target ← addState
  let _ ← ((byteSequences s).forM fun rs => do
    let _ ← addBackwards target rs
    addStates 0 4 : StateT (Memory Way) (StateT Layout Option) Unit).run ∅

/-! ### Choices between texts -/

/-- The texts, with the first byte of each taken off, that start with the given byte. -/
def behindByte (b : Nat) (texts : List (List Nat)) : List (List Nat) :=
  texts.filterMap fun
    | c :: s => if c = b then some s else none
    | [] => none

/-- The texts between those that end here. Texts that end here do not count behind another one
before any text goes on. -/
def betweenEnds : List (List Nat) → List (List (List Nat))
  | [] => [[]]
  | [] :: texts => [] :: betweenEnds texts
  | s :: texts =>
    match betweenEnds texts with
    | [] => [[s]]
    | first :: more => (s :: first) :: more

/-- The texts without a repeated end before the first one that goes on. -/
def withoutRepeatedEnd (texts : List (List Nat)) : List (List Nat) :=
  let goingOn := texts.dropWhile (·.isEmpty)
  if goingOn.length < texts.length then [] :: goingOn else goingOn

/-- Lays out a choice between texts that shares what they start with. A text that ends parts those
before it from those behind it. The bound is the length of the longest text. -/
def addTexts : Nat → List (List Nat) → Build Unit
  | 0, _ => return ()
  | bound + 1, texts => do
    let stretches := betweenEnds (withoutRepeatedEnd texts)
    let known := stretches.filter (!·.isEmpty)
    if known.isEmpty then return ()
    addFork (known.length + (stretches.length - 1))
    for stretch in known do
      let firsts := (stretch.filterMap List.head?).eraseDups
      match firsts with
      | [_] => addStates 1 0
      | _ => addStates 1 (8 * firsts.length)
      for b in firsts do
        addTexts bound (behindByte b stretch)

/-! ### Expressions -/

/-- Parts one after the other behind a first one. -/
def addAfter (fork : Bool) : List (Build Bool) → Build Bool
  | [] => return fork
  | part :: more => do
    let next ← part
    leadOn fork
    addAfter next more

/-- Parts one after the other. -/
def addSequence : List (Build Bool) → Build Bool
  | [] => do
    addStates 1 0
    return false
  | part :: more => do addAfter (← part) more

/-- A part so many times behind a first one. -/
def addTimesAfter (part : Build Bool) (fork : Bool) : Nat → Build Bool
  | 0 => return fork
  | n + 1 => do
    let next ← part
    leadOn fork
    addTimesAfter part next n

/-- A part so many times. -/
def addTimes (part : Build Bool) : Nat → Build Bool
  | 0 => do
    addStates 1 0
    return false
  | n + 1 => do addTimesAfter part (← part) n

/-- A part up to so many times more, each behind a fork. -/
def addOptional (part : Build Bool) (fork : Bool) : Nat → Build Bool
  | 0 => return fork
  | n + 1 => do
    addFork 0
    let next ← part
    leadOn fork
    addStates 0 8
    addOptional part next n

/-- A repetition. `widthless` says that the part may match no character. -/
def addRepetition (part : Build Bool) (widthless : Bool) (least : Nat) :
    Option Nat → Build Bool
  | none =>
    match least with
    | 0 => do
      if widthless then do
        let fork ← part
        addFork 2
        leadOn fork
        addFork 2
        addStates 1 0
        return false
      else do
        addFork 1
        leadOn (← part)
        return true
    | least + 1 => do
      let fork ← if least = 0 then pure false else addTimes part least
      let last ← part
      leadOn fork
      addFork 1
      leadOn last
      return true
  | some most =>
    if least = 0 ∧ most = 1 then do
      addFork 2
      let fork ← part
      addStates 1 0
      leadOn fork
      return false
    else if least = most then addTimes part least
    else do
      let fork ← addTimes part least
      addStates 1 0
      let fork ← addOptional part fork (most - least)
      leadOn fork
      return false

/-- Parts that all lead on to the same state. -/
def addEach : List (Build Bool) → Build Unit
  | [] => return ()
  | part :: more => do
    leadOn (← part)
    addEach more

/-- Two or more parts, one instead of the other. The fork between them stands behind the second. -/
def addAlternatives (parts : List (Build Bool)) : Build Bool := do
  addEach (parts.take 2)
  addFork parts.length
  addStates 1 0
  addEach (parts.drop 2)
  return false

namespace Expression

/-- The bytes of a text, from its end if it is read backwards. -/
def textOf? (back : Bool) : Expression → Option (List Nat)
  | .literal text =>
    let bytes := text.flatMap fun c => bytesOf c.toNat
    some (if back then bytes.reverse else bytes)
  | _ => none

mutual

/-- Lays out an expression, and says whether it ends in a fork. Groups are only kept forwards. -/
def build (back : Bool) : Expression → Build Bool
  | .empty => do
    addStates 1 0
    return false
  | .literal text => do
    addStates (textBytes text) 0
    return false
  | .oneOf members ascii => do
    if ascii || members.isAscii then addStates 2 (8 * members.ranges.length)
    else if back then addSetBackwards members
    else addSet members
    return false
  | .assert _ => do
    addStates 1 0
    return false
  | .times body least most _ =>
    addRepetition (body.build back) (body.leastBytes?.getD 0 == 0) least most
  | .group _ body => do
    if back then body.build back
    else do
      addStates 1 0
      let fork ← body.build back
      addStates 1 0
      leadOn fork
      return false
  | .seq parts => addSequence (buildEach back parts)
  | .alt choices =>
    match choices.mapM (textOf? back) with
    | some texts => do
      addStates 1 0
      addTexts ((texts.map List.length).foldl max 0) texts
      return false
    | none => addAlternatives (buildEach back choices)

def buildEach (back : Bool) : List Expression → List (Build Bool)
  | [] => []
  | e :: es => e.build back :: buildEach back es

end

/-- Lays out the automaton of a whole expression: what skips the characters before a match, unless
it is bound to the end where the automaton starts, then the expression as a group, and a state that
is reached by matches. -/
def buildWhole (back : Bool) (e : Expression) : Build Unit := do
  let bound := if back then e.backwards.opensWith .textEnd else e.opensWith .textStart
  if bound then addStates 1 0
  else do
    addFork 1
    addStates 2 8
  let fork ← if back then e.backwards.build back else (Expression.group 0 e).build back
  addStates 1 0
  leadOn fork
  leadOn !bound

/-- A choice between thousands of texts, which is followed without an automaton. -/
def isWordList : Expression → Bool
  | .alt choices => 3000 ≤ choices.length && choices.all fun e => (textOf? false e).isSome
  | _ => false

/-- Holds of the expressions that are accepted: their automata stay within the limit. -/
def fits (e : Expression) : Bool :=
  e.isWordList ||
    ((buildWhole false e).run ⟨0, 0⟩).isSome && ((buildWhole true e).run ⟨0, 0⟩).isSome

end Expression

end BuildPlan.Regex
