import ScrabbleMagyar.Engine.Tiles

/-!
# The affix checker

The dictionary's stems with their prefixes and suffixes (`words/affix.rs`): the conditions of
the rules, the rules and entries as they are loaded, and the search for a derivation of a word.

The reading of the two files into lines is left out; a `RuleLine` is a rule with its aliases
resolved, in the order of the file. The source keeps the rules in maps from the added text to a
vector; here they are lists in the order of the file, and `rulesFor` is the lookup.
-/

namespace ScrabbleMagyar

def maxAffixLen : ℕ := 40

/-! ## Conditions -/

inductive ClassItem
  | char (c : Char)
  | range (a b : Char)

def ClassItem.matches : ClassItem → Char → Bool
  | char x, c => x == c
  | range a b, c => a ≤ c && c ≤ b

inductive CondElem
  | any
  | lit (c : Char)
  | cls (negated : Bool) (items : List ClassItem)

def CondElem.matches : CondElem → Char → Bool
  | any, c => c ≠ '\n'
  | lit l, c => l == c
  | cls negated items, c => (items.any fun item => item.matches c) ≠ negated

/-- The condition of a rule: a row of elements that fits the end of a stem (for a suffix) or
its start (for a prefix). -/
structure Cond where
  elems : List CondElem

namespace Cond

/-- The items of a class up to its closing bracket, and what follows; `none` when the class is
not closed or a range runs backwards. A bracket in front is an item. -/
def parseClass : ℕ → List Char → Bool → Option (List ClassItem × List Char)
  | 0, _, _ => none
  | _ + 1, [], _ => none
  | n + 1, ch :: rest, first =>
    if ch = ']' ∧ !first then some ([], rest)
    else match rest with
      | '-' :: b :: rest' =>
        if b = ']' then (parseClass n rest false).map fun r => (.char ch :: r.1, r.2)
        else if b < ch then none
        else (parseClass n rest' false).map fun r => (.range ch b :: r.1, r.2)
      | _ => (parseClass n rest false).map fun r => (.char ch :: r.1, r.2)

/-- The elements of a condition. Every element takes at least one character, so the number of
characters bounds the steps. -/
def parseElems : ℕ → List Char → Option (List CondElem)
  | _, [] => some []
  | 0, _ :: _ => none
  | n + 1, '[' :: '^' :: rest =>
    (parseClass rest.length rest true).bind fun r =>
      (parseElems n r.2).map fun elems => .cls true r.1 :: elems
  | n + 1, '[' :: rest =>
    (parseClass rest.length rest true).bind fun r =>
      (parseElems n r.2).map fun elems => .cls false r.1 :: elems
  | n + 1, '.' :: rest => (parseElems n rest).map fun elems => .any :: elems
  | n + 1, c :: rest => (parseElems n rest).map fun elems => .lit c :: elems

def parse (source : List Char) : Option Cond := (parseElems source.length source).map Cond.mk

def matchesEnd (cond : Cond) (word : Word) : Bool :=
  let n := cond.elems.length
  let chars := word.reverse.take n
  if chars.length < n then false
  else (cond.elems.reverse.zip chars).all fun e => e.1.matches e.2

def matchesStart (cond : Cond) (word : Word) : Bool :=
  let n := cond.elems.length
  let chars := word.take n
  if chars.length < n then false else (cond.elems.zip chars).all fun e => e.1.matches e.2

end Cond

/-! ## Rules and entries -/

inductive Derived
  | noun
  | adj
  | other
  deriving DecidableEq

structure Rule where
  flag : UInt8
  cross : Bool
  strip : Word
  add : Word
  cont : Option (List UInt8)
  cond : Option Cond
  needAffix : Bool
  onlyInCompound : Bool
  risk : UInt8
  derived : Option Derived

namespace Rule

def contHas (r : Rule) (flag : UInt8) : Bool := r.cont.any fun c => c.contains flag

def condOkSuffix (r : Rule) (stem : Word) : Bool := r.cond.all fun c => c.matchesEnd stem

def condOkPrefix (r : Rule) (stem : Word) : Bool := r.cond.all fun c => c.matchesStart stem

end Rule

structure Entry where
  flags : List UInt8
  kind : UInt8

def kindAdj : UInt8 := 1

def kindForeign : UInt8 := 2

def riskEssive : UInt8 := 2

def riskPoss : UInt8 := 4

/-- The risks that no part of speech redeems: `familiar`, `derived` and `derivation`. -/
def riskAlways : UInt8 := 1 ||| 8 ||| 16

/-- Whether the derivation with `rule`, and `outer` upon it, is a risky one. -/
def isRisky (kind : UInt8) (rule : Rule) (outer : Option Rule) : Bool :=
  let adj : Bool := kind &&& kindAdj ≠ 0
  let has (r : Rule) (bits : UInt8) : Bool := r.risk &&& bits ≠ 0
  if has rule riskAlways then true
  else if has rule riskPoss && adj || has rule riskEssive && !adj then true
  else match outer with
    | none => false
    | some outer =>
      if has outer riskAlways then true
      else
        let innerAdj := rule.derived = some .adj || rule.derived.isNone && adj
        has outer riskPoss && innerAdj || has outer riskEssive && !innerAdj

/-- A loaded dictionary. The marks of a rule are read off its continuation flags, and a flag
that some rule continues with is noted. -/
structure AffixChecker where
  needaffix : Option UInt8
  onlyincompound : Option UInt8
  forbidden : Option UInt8
  prefixes : List Rule
  suffixes : List Rule
  contFlags : UInt8 → Bool
  entries : List (Word × Entry)
  attested : Option (List Word)
  needAffix_eq : ∀ r ∈ prefixes ++ suffixes, r.needAffix = needaffix.any r.contHas
  onlyInCompound_eq : ∀ r ∈ prefixes ++ suffixes, r.onlyInCompound = onlyincompound.any r.contHas
  contFlags_of_contHas : ∀ r ∈ prefixes ++ suffixes, ∀ flag, r.contHas flag = true →
    contFlags flag = true

namespace AffixChecker

/-! ## Loading -/

/-- A checker with the flags of the header and no rules or entries yet. -/
def empty (needaffix onlyincompound forbidden : Option UInt8) (attested : Option (List Word)) :
    AffixChecker :=
  { needaffix, onlyincompound, forbidden, prefixes := [], suffixes := [],
    contFlags := fun _ => false, entries := [], attested, needAffix_eq := by simp,
    onlyInCompound_eq := by simp, contFlags_of_contHas := by simp }

/-- A line of the affix file; an empty `cont` is an absent one. -/
structure RuleLine where
  isPrefix : Bool
  flag : UInt8
  cross : Bool
  strip : Word
  add : Word
  cont : List UInt8
  condition : List Char
  risk : UInt8
  derived : Option Derived

/-- The rule of a line whose condition is `cond`. -/
def RuleLine.rule (line : RuleLine) (c : AffixChecker) (cond : Option Cond) : Rule :=
  let cont := if line.cont.isEmpty then none else some line.cont
  let marked (mark : Option UInt8) : Bool := mark.any fun f => cont.any fun c => c.contains f
  { flag := line.flag, cross := line.cross, strip := line.strip, add := line.add, cont, cond,
    needAffix := marked c.needaffix, onlyInCompound := marked c.onlyincompound,
    risk := line.risk, derived := line.derived }

/-- The rule of a line; `none` when its condition is malformed. -/
def ruleOf (c : AffixChecker) (line : RuleLine) : Option Rule :=
  if line.condition = ['.'] then some (line.rule c none)
  else (Cond.parse line.condition).map fun cond => line.rule c (some cond)

theorem ruleOf_marks {c : AffixChecker} {line : RuleLine} {r : Rule} (h : c.ruleOf line = some r) :
    r.needAffix = c.needaffix.any r.contHas ∧
      r.onlyInCompound = c.onlyincompound.any r.contHas := by
  unfold ruleOf at h
  split at h
  · obtain rfl := Option.some.inj h
    exact ⟨rfl, rfl⟩
  · obtain ⟨cond, -, rfl⟩ := Option.map_eq_some_iff.mp h
    exact ⟨rfl, rfl⟩

theorem mem_or_eq_of_mem_append {isPrefix : Bool} {prefixes suffixes : List Rule} {r s : Rule}
    (h : s ∈ (if isPrefix then prefixes ++ [r] else prefixes) ++
      if isPrefix then suffixes else suffixes ++ [r]) : s ∈ prefixes ++ suffixes ∨ s = r := by
  cases isPrefix <;> simp at h ⊢ <;> tauto

/-- Add the rule of a line to the rules of its kind. -/
def addRule (c : AffixChecker) (line : RuleLine) : AffixChecker :=
  match h : c.ruleOf line with
  | none => c
  | some r =>
    { c with
      prefixes := if line.isPrefix then c.prefixes ++ [r] else c.prefixes
      suffixes := if line.isPrefix then c.suffixes else c.suffixes ++ [r]
      contFlags := fun flag => c.contFlags flag || r.contHas flag
      needAffix_eq := fun s hs => by
        obtain hs | rfl := mem_or_eq_of_mem_append hs
        · exact c.needAffix_eq s hs
        · exact (ruleOf_marks h).1
      onlyInCompound_eq := fun s hs => by
        obtain hs | rfl := mem_or_eq_of_mem_append hs
        · exact c.onlyInCompound_eq s hs
        · exact (ruleOf_marks h).2
      contFlags_of_contHas := fun s hs flag hflag => by
        obtain hs | rfl := mem_or_eq_of_mem_append hs
        · simp [c.contFlags_of_contHas s hs flag hflag]
        · simp [hflag] }

def addEntry (c : AffixChecker) (word : Word) (entry : Entry) : AffixChecker :=
  { c with entries := c.entries ++ [(word, entry)] }

/-- Load the rules, then the entries. -/
def load (needaffix onlyincompound forbidden : Option UInt8) (attested : Option (List Word))
    (lines : List RuleLine) (dic : List (Word × Entry)) : AffixChecker :=
  dic.foldl (fun c e => c.addEntry e.1 e.2)
    (lines.foldl addRule (empty needaffix onlyincompound forbidden attested))

/-! ## The search -/

/-- The entries of a spelling. -/
def entriesOf (c : AffixChecker) (word : Word) : List Entry :=
  (c.entries.filter fun e => e.1 = word).map Prod.snd

/-- The entries of a spelling that are not foreign, forbidden or for compounds only. -/
def usableEntries (c : AffixChecker) (word : Word) : List Entry :=
  (c.entriesOf word).filter fun e =>
    if e.kind &&& kindForeign ≠ 0 then false
    else if c.forbidden.any fun f => e.flags.contains f then false
    else if c.onlyincompound.any fun f => e.flags.contains f then false
    else true

def stemOk (c : AffixChecker) (stem : Word) (rule : Rule) (pfx : Option Rule)
    (outerFlag : Option UInt8) (outerRule : Option Rule) (allowRisky : Bool) : Bool :=
  (c.usableEntries stem).any fun entry =>
    if !entry.flags.contains rule.flag && !pfx.any (fun p => p.contHas rule.flag) then false
    else if pfx.any fun p => !entry.flags.contains p.flag && !rule.contHas p.flag then false
    else if outerFlag.any fun f => !rule.contHas f then false
    else if !allowRisky && isRisky entry.kind rule outerRule then false
    else true

/-- The rules that add a text, in the order of the file. -/
def rulesFor (rules : List Rule) (add : Word) : List Rule := rules.filter fun r => r.add = add

/-- The suffixes by the text at the end of a word that they add. -/
def suffixCandidates (c : AffixChecker) (word : Word) : List (Word × List Rule) :=
  let n := word.length
  (List.range (min (n - 1) maxAffixLen + 1)).filterMap fun k =>
    let add := word.drop (n - k)
    let rules := rulesFor c.suffixes add
    if rules.isEmpty then none else some (add, rules)

/-- The prefixes by the text at the start of a word that they add. -/
def prefixCandidates (c : AffixChecker) (word : Word) : List (Word × List Rule) :=
  let n := word.length
  (List.range (min (n - 1) maxAffixLen + 1)).filterMap fun k =>
    let add := word.take k
    let rules := rulesFor c.prefixes add
    if rules.isEmpty then none else some (add, rules)

/-- The body of the loop of `suffixCheck`: one rule, on what is left of the word. -/
def trySuffix (c : AffixChecker) (pfx : Option Rule) (outerFlag : Option UInt8)
    (outerRule : Option Rule) (allowRisky : Bool) (base : Word) (rule : Rule) : Bool :=
  if outerFlag.isSome && rule.cont.isNone then false
  else if rule.onlyInCompound then false
  else if outerFlag.isNone && rule.needAffix && !pfx.any (fun p => !p.needAffix) then false
  else if pfx.any fun p => !(rule.cross && p.cross) then false
  else
    let stem := base ++ rule.strip
    if !rule.condOkSuffix stem then false
    else c.stemOk stem rule pfx outerFlag outerRule allowRisky

/-- A stem and a suffix, crossed with the prefix `pfx` and under an outer suffix if there are
such. -/
def suffixCheck (c : AffixChecker) (word : Word) (pfx : Option Rule) (outerFlag : Option UInt8)
    (outerRule : Option Rule) (allowRisky : Bool) : Bool :=
  (c.suffixCandidates word).any fun (add, rules) =>
    rules.any (c.trySuffix pfx outerFlag outerRule allowRisky (word.take (word.length - add.length)))

/-- The body of the loop of `suffixCheckTwo`. -/
def tryOuterSuffix (c : AffixChecker) (pfx : Option Rule) (allowRisky : Bool) (base : Word)
    (rule : Rule) : Bool :=
  if !c.contFlags rule.flag || rule.onlyInCompound then false
  else if pfx.any fun p => !(rule.cross && p.cross) then false
  else
    let stem := base ++ rule.strip
    if !rule.condOkSuffix stem then false
    else
      let innerPfx := pfx.filter fun p => !rule.contHas p.flag
      c.suffixCheck stem innerPfx (some rule.flag) (some rule) allowRisky

/-- A stem and two suffixes, one upon the other. -/
def suffixCheckTwo (c : AffixChecker) (word : Word) (pfx : Option Rule) (allowRisky : Bool) : Bool :=
  (c.suffixCandidates word).any fun (add, rules) =>
    rules.any (c.tryOuterSuffix pfx allowRisky (word.take (word.length - add.length)))

/-- The body of the loop of `prefixCheck`. -/
def tryPrefix (c : AffixChecker) (twoSuffixes allowRisky : Bool) (rest : Word) (rule : Rule) : Bool :=
  if rule.onlyInCompound then false
  else
    let stem := rule.strip ++ rest
    if !rule.condOkPrefix stem then false
    else if !twoSuffixes then
      if (c.usableEntries stem).any fun e => e.flags.contains rule.flag then true
      else rule.cross && c.suffixCheck stem (some rule) none none allowRisky
    else rule.cross && c.suffixCheckTwo stem (some rule) allowRisky

def prefixCheck (c : AffixChecker) (word : Word) (twoSuffixes allowRisky : Bool) : Bool :=
  (c.prefixCandidates word).any fun (add, rules) =>
    rules.any (c.tryPrefix twoSuffixes allowRisky (word.drop add.length))

def isForbidden (c : AffixChecker) (word : Word) : Bool :=
  c.forbidden.any fun f => (c.entriesOf word).any fun e => e.flags.contains f

/-- Whether the word is a valid entry without any affix. -/
def hasStem (c : AffixChecker) (word : Word) : Bool :=
  if c.isForbidden word then false
  else (c.usableEntries word).any fun e => !c.needaffix.any fun f => e.flags.contains f

def compute (c : AffixChecker) (word : Word) (allowRisky : Bool) : Bool :=
  if c.isForbidden word then false
  else if c.hasStem word then true
  else if c.prefixCheck word false allowRisky then true
  else if c.suffixCheck word none none none allowRisky then true
  else if c.suffixCheckTwo word none allowRisky then true
  else c.prefixCheck word true allowRisky

def riskyAllowed (c : AffixChecker) (word : Word) : Bool := c.attested.all fun a => a.contains word

/-- Whether a lower case word is in the dictionary, with an affix or without. -/
def check (c : AffixChecker) (word : Word) : Bool := c.compute word (c.riskyAllowed word)

/-- Whether a word is valid by risky derivations only, so that the attested list decides. -/
def needsAttestation (c : AffixChecker) (word : Word) : Bool :=
  !c.compute word false && c.compute word true

def validWithoutRisky (c : AffixChecker) (word : Word) : Bool := c.compute word false

end AffixChecker

end ScrabbleMagyar
