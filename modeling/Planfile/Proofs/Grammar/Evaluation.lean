import Planfile.Grammar.Declaration

/-!
# Planfile — making a table quickly

What is found out about the language by looking at all of its rules starts with making its table. The
declarations are texts, and a table is made by comparing names over and over, so that is what takes the time.
Names are compared faster as numbers, and the characters of a text are found faster if all of them are in
ASCII, where a character is a byte. The table is the same.

Main results:

* `quickChars_eq` — the characters of a text.
* `textKey_inj` — texts with one number are the same.
* `GrammarTable.resolve_eq_resolveQuickly` — the table that is made quickly is the table.
-/

namespace Planfile

/-- What a computation that may fail is found to give is its result. -/
theorem eq_ok_of_toOption {x : Except ε α} {a : α} (h : x.toOption = some a) : x = .ok a := by
  cases x with
  | error e => cases h
  | ok b => exact congrArg Except.ok (Option.some.inj h)

/-! ## Characters -/

/-- The characters of a text, found byte by byte if all of them are in ASCII. -/
def quickChars (s : String) : List Char :=
  let bytes := s.toByteArray.data.toList
  if bytes.all (·.toNat < 128) then bytes.map fun b => Char.ofNat b.toNat else s.toList

/-- A byte below 128 stands for a character of its own. -/
theorem utf8EncodeChar_ofNat {b : UInt8} (h : b.toNat < 128) :
    String.utf8EncodeChar (Char.ofNat b.toNat) = [b] := by
  have known : ∀ n < 128, String.utf8EncodeChar (Char.ofNat n) = [UInt8.ofNat n] := by decide
  rw [known b.toNat h, UInt8.ofNat_toNat]

/-- What is found byte by byte are the characters of the text. -/
theorem quickChars_eq (s : String) : quickChars s = s.toList := by
  unfold quickChars
  dsimp only
  split
  · next ascii =>
    -- the text of these characters has the same bytes, so it is the same text
    have bytes : (s.toByteArray.data.toList.map fun b => Char.ofNat b.toNat).flatMap
        String.utf8EncodeChar = s.toByteArray.data.toList := by
      generalize s.toByteArray.data.toList = bytes at ascii ⊢
      induction bytes with
      | nil => rfl
      | cons b rest ih =>
        rw [List.all_cons, Bool.and_eq_true] at ascii
        rw [List.map_cons, List.flatMap_cons, utf8EncodeChar_ofNat (by simpa using ascii.1),
          ih ascii.2, List.singleton_append]
    have same : String.ofList (s.toByteArray.data.toList.map fun b => Char.ofNat b.toNat) = s := by
      rw [← String.toByteArray_inj, String.toByteArray_ofList, List.utf8Encode, bytes]
      exact ByteArray.ext (Array.ext' List.toList_data_toByteArray)
    rw [← String.toList_ofList (l := s.toByteArray.data.toList.map fun b => Char.ofNat b.toNat), same]
  · rfl

/-! ## Numbers of texts -/

/-- The number with some digits to the base 256, the lowest one first, and a one behind them. -/
def bytesKey (bytes : List UInt8) : Nat := bytes.foldr (fun b n => n * 256 + b.toNat) 1

theorem bytesKey_pos (bytes : List UInt8) : 0 < bytesKey bytes := by
  induction bytes with
  | nil => exact Nat.one_pos
  | cons b rest ih =>
    show 0 < bytesKey rest * 256 + b.toNat
    omega

/-- Different digits make different numbers. -/
theorem bytesKey_inj {xs ys : List UInt8} (h : bytesKey xs = bytesKey ys) : xs = ys := by
  have step (b : UInt8) (rest : List UInt8) : bytesKey (b :: rest) = bytesKey rest * 256 + b.toNat := rfl
  induction xs generalizing ys with
  | nil =>
    cases ys with
    | nil => rfl
    | cons c ys =>
      have one : bytesKey [] = 1 := rfl
      have positive := bytesKey_pos ys
      rw [one, step] at h
      omega
  | cons b xs ih =>
    have digit := b.toNat_lt
    cases ys with
    | nil =>
      have one : bytesKey [] = 1 := rfl
      have positive := bytesKey_pos xs
      rw [one, step] at h
      omega
    | cons c ys =>
      have digit' := c.toNat_lt
      rw [step, step] at h
      have first : b = c := UInt8.toNat_inj.mp (by omega)
      have rest : xs = ys := ih (by omega)
      rw [first, rest]

/-- A number for a text. -/
def textKey (s : String) : Nat := bytesKey s.toByteArray.data.toList

/-- Texts with one number are the same. -/
theorem textKey_inj {s t : String} : textKey s = textKey t ↔ s = t := by
  refine ⟨fun h => ?_, congrArg textKey⟩
  rw [← String.toByteArray_inj]
  exact ByteArray.ext (Array.ext' (bytesKey_inj h))

/-- Texts are compared by their numbers. -/
theorem textKey_beq (s t : String) : (textKey s).beq (textKey t) = (s == t) := by
  rw [Bool.eq_iff_iff, Nat.beq_eq, beq_iff_eq, textKey_inj]

/-- The sigil of a reference is the lowest digit of its number. -/
theorem textKey_reference (name : String) : textKey ("!" ++ name) = textKey name * 256 + 33 := by
  rw [textKey, String.toByteArray_append, ByteArray.toList_data_append]
  rfl

/-! ## Tables -/

/-- What some characters mean as a declared symbol. -/
def SymbolSpec.ofChars? : List Char → Option SymbolSpec
  | [] | [_] => none
  | sigil :: rest =>
    let name := String.ofList rest
    if sigil = '_' then some (.literal name)
    else if sigil = '$' then (TokenClass.ofName? name).map .tokenClass
    else if sigil = '!' then some (.rule name)
    else none

/-- A declared symbol is what its characters mean. -/
theorem SymbolSpec.ofChars?_quickChars (text : String) : ofChars? (quickChars text) = ofText? text := by
  rw [quickChars_eq, ofText?]
  rfl

namespace GrammarTable

/-- The rule that a reference is for, where the numbers of the names of all rules are known and the number
of the reference. Its lowest digit is the sigil, and the others are the number of a name. -/
def reference? (keys : List Nat) (key : Nat) : Option Nat :=
  -- the sigil alone is no reference, not even to a rule without a name
  bif (key % 256).beq 33 && Nat.blt 1 (key / 256) then keys.findIdx? (·.beq (key / 256)) else none

/-- Resolves a declared symbol, where the numbers of the names of all rules are known. -/
def symbolQuickly (keys : List Nat) (find : String → Option RuleId) (rule text : String) :
    Except GrammarError Symbol :=
  match reference? keys (textKey text) with
  | some i => .ok (.rule ⟨i⟩)
  | none =>
    match SymbolSpec.ofChars? (quickChars text) with
    | some (.literal text) => .ok (.literal text)
    | some (.tokenClass c) => .ok (.tokenClass c)
    | some (.rule name) =>
      match find name with
      | some id => .ok (.rule id)
      | none => .error (.undefinedRule rule name)
    | none => .error (.invalidSymbol rule text)

/-- Resolves the symbols of a rule. -/
def ruleQuickly (keys : List Nat) (find : String → Option RuleId) (d : RuleDeclaration) :
    Except GrammarError Rule :=
  if d.patterns.isEmpty then .error (.emptyPattern d.name)
  else do
    let patterns ← d.patterns.mapM fun p =>
      if p.symbols.isEmpty then .error (.emptyPattern d.name)
      else do
        let symbols ← p.symbols.mapM (symbolQuickly keys find d.name)
        return ⟨symbols, p.action⟩
    return ⟨d.name, patterns, d.optional, d.repeatable⟩

/-- The name that is declared a second time, where the numbers of the names before are known. -/
def duplicateQuickly? : List Nat → List RuleDeclaration → Option String
  | _, [] => none
  | seen, d :: rest =>
    bif seen.any (·.beq (textKey d.name)) then some d.name
    else duplicateQuickly? (textKey d.name :: seen) rest

/-- The table of some declarations, where names are compared by their numbers. -/
def resolveQuickly (declarations : List RuleDeclaration) : Except GrammarError GrammarTable :=
  match duplicateQuickly? [] declarations with
  | some name => .error (.duplicateRule name)
  | none => do
    let keys := declarations.map (textKey ·.name)
    let find (name : String) : Option RuleId := (declarations.findIdx? (·.name == name)).map RuleId.mk
    let rules ← declarations.mapM (ruleQuickly keys find)
    return ⟨rules.toArray⟩

/-- The same name is found to be declared twice. -/
theorem duplicateQuickly?_eq (seen : List String) (declarations : List RuleDeclaration) :
    duplicateQuickly? (seen.map textKey) declarations = duplicate? seen declarations := by
  induction declarations generalizing seen with
  | nil => rfl
  | cons d rest ih =>
    have known : (seen.map textKey).any (·.beq (textKey d.name)) = seen.contains d.name := by
      rw [List.any_map, List.contains_eq_any_beq]
      congr 1
      funext s
      rw [Bool.beq_comm (a := d.name)]
      exact textKey_beq s d.name
    rw [duplicateQuickly?, duplicate?, known, ← List.map_cons, ih, cond_eq_ite]

/-- A reference that is resolved by its number consists of the sigil and the name of the first rule that has
this name. -/
theorem exists_of_reference? {declarations : List RuleDeclaration} {text : String} {i : Nat}
    (h : reference? (declarations.map (textKey ·.name)) (textKey text) = some i) :
    ∃ name, name ≠ "" ∧ text = "!" ++ name ∧ declarations.findIdx? (·.name == name) = some i := by
  rw [reference?, cond_eq_ite] at h
  split at h
  · next isReference =>
    rw [Bool.and_eq_true, Nat.beq_eq, Nat.blt_eq] at isReference
    obtain ⟨sigil, long⟩ := isReference
    rw [List.findIdx?_map] at h
    obtain ⟨inside, same, -⟩ := List.findIdx?_eq_some_iff_getElem.mp h
    have same : textKey declarations[i].name = textKey text / 256 := Nat.eq_of_beq_eq_true same
    refine ⟨declarations[i].name, ?_, ?_, ?_⟩
    · rintro empty
      rw [empty] at same
      have one : textKey "" = 1 := rfl
      omega
    · rw [← textKey_inj, textKey_reference]
      omega
    · rw [← h]
      congr 1
      funext d
      rw [← textKey_beq, same]
      rfl
  · cases h

/-- A declared symbol is resolved to the same by both ways. -/
theorem symbolQuickly_eq (declarations : List RuleDeclaration) (rule : String) :
    symbolQuickly (declarations.map (textKey ·.name))
        (fun name => (declarations.findIdx? (·.name == name)).map RuleId.mk) rule =
      resolveSymbol (fun name => (declarations.findIdx? (·.name == name)).map RuleId.mk) rule := by
  funext text
  rw [symbolQuickly, SymbolSpec.ofChars?_quickChars]
  cases found : reference? (declarations.map (textKey ·.name)) (textKey text) with
  | none => rfl
  | some i =>
    obtain ⟨name, nonempty, rfl, known⟩ := exists_of_reference? found
    rw [resolveSymbol, SymbolSpec.ofText?_rule nonempty]
    simp only [known, Option.map_some]

/-- The table that is made quickly is the table. -/
theorem resolve_eq_resolveQuickly : resolve = resolveQuickly := by
  funext declarations
  have declared : duplicateQuickly? [] declarations = duplicate? [] declarations :=
    duplicateQuickly?_eq [] declarations
  have rules : ruleQuickly (declarations.map (textKey ·.name))
      (fun name => (declarations.findIdx? (·.name == name)).map RuleId.mk) =
      resolveRule fun name => (declarations.findIdx? (·.name == name)).map RuleId.mk := by
    funext d
    simp only [ruleQuickly, symbolQuickly_eq]
    rfl
  rw [resolveQuickly, declared]
  simp only [rules]
  rfl

end GrammarTable

end Planfile
