import Ydsh.Misc.NumUtil

/-
  The file mode creation mask and its symbolic modes.

  Main declarations:
    * `parseMode`
    * `parseSymbolicMode`
    * `builtin_umask`
    * `Clause`
-/

----
-- Modes
----

namespace Ydsh

namespace Umask

abbrev Bytes := List UInt8

/- `mode_t` -/
abbrev Mode := BitVec 32

abbrev comma : UInt8 := 0x2C
abbrev plus : UInt8 := 0x2B
abbrev minus : UInt8 := 0x2D
abbrev equals : UInt8 := 0x3D

def setFlag (set flag : Mode) : Mode :=
  set ||| flag

def unsetFlag (set flag : Mode) : Mode :=
  set &&& ~~~ flag

/- A string in memory from a place on, which ends with the
null character.  Nothing behind it may be read. -/
def memory
    (ref : Bytes)
    (value : Nat) : Bytes :=
  (ref ++ [0]).drop value

/- `*value` -/
def deref
    (ref : Bytes)
    (value : Nat) : Option UInt8 :=
  (memory ref value).head?

/- The bits of a letter of `[ugoa]`. -/
def userBits (ch : UInt8) : Option Mode :=
  if ch = 0x75 then some 0o700
  else if ch = 0x67 then some 0o070
  else if ch = 0x6F then some 0o007
  else if ch = 0x61 then some 0o777
  else none

/- The bits of a letter of `[rwx]`. -/
def permBits (ch : UInt8) : Option Mode :=
  if ch = 0x72 then some 0o444
  else if ch = 0x77 then some 0o222
  else if ch = 0x78 then some 0o111
  else none

/- `[ugoa]*`: the place of the first other character. -/
def parseUser : Bytes → Nat → Mode → Option (Nat × Mode)
  | [], _, _ => none
  | ch :: text, value, user =>
      match userBits ch with
      | some bits => parseUser text (value + 1) (user ||| bits)
      | none => some (value, user)

/- `[rwx]*`: whether all characters up to the end of the
clause are letters, the place, and the bits. -/
def parsePerms
    (user : Mode) :
    Bytes → Nat → Mode → Option (Bool × Nat × Mode)
  | [], _, _ => none
  | ch :: text, value, newMode =>
      if ch = 0 ∨ ch = comma then
        some (true, value, newMode)
      else
        match permBits ch with
        | some bits =>
            parsePerms user text (value + 1)
              (newMode ||| (bits &&& user))
        | none => some (false, value + 1, newMode)

def applyOp
    (op : UInt8)
    (user newMode mode : Mode) : Mode :=
  if op = plus then unsetFlag mode newMode
  else if op = minus then setFlag mode newMode
  else unsetFlag (setFlag mode user) newMode

/- Nothing is returned where the null character is passed. -/
def parseMode
    (ref : Bytes)
    (value : Nat)
    (mode : Mode) : Option (Bool × Nat × Mode) := do
  let (value, user) ← parseUser (memory ref value) value 0
  let user := if user = 0 then 0o777 else user
  let op ← deref ref value
  let value := value + 1
  if op ≠ minus ∧ op ≠ plus ∧ op ≠ equals then
    return (false, value, mode)
  let (success, value, newMode) ←
    parsePerms user (memory ref value) value 0
  if success then
    return (true, value, applyOp op user newMode mode)
  else
    return (false, value, mode)

structure SymbolicParseResult where
  success : Bool
  invalid : UInt8
  mode : Mode

/- `ret.invalid = *(--value)` -/
def failed
    (ref : Bytes)
    (value : Nat)
    (mode : Mode) : Option SymbolicParseResult := do
  let invalid ← deref ref (value - 1)
  return ⟨false, invalid, mode⟩

/- The clauses after the first one, at most `rounds`. -/
def parseMore
    (ref : Bytes) :
    Nat → Nat → Mode → Option SymbolicParseResult
  | 0, _, _ => none
  | rounds + 1, value, mode => do
      let ch ← deref ref value
      if ch = 0 then
        return ⟨true, 0, mode⟩
      if ch = comma then
        let (success, value, mode) ←
          parseMode ref (value + 1) mode
        if success then
          parseMore ref rounds value mode
        else
          failed ref value mode
      else
        failed ref (value + 1) mode

def parseSymbolicMode
    (ref : Bytes)
    (mode : Mode) : Option SymbolicParseResult :=
  if 0 ∈ ref then
    return ⟨false, 0, mode⟩
  else do
    let (success, value, mode) ← parseMode ref 0 mode
    if success then
      parseMore ref (ref.length + 1) value mode
    else
      failed ref value mode

----
-- The Builtin Command
----

/- The mask of a process has no other bits. -/
abbrev ProcessMask := { mode : Mode // mode &&& 0o777 = mode }

/- `umask(2)` returns the old mask. -/
def umask
    (mode : Mode)
    (process : ProcessMask) : Mode × ProcessMask :=
  (process.1, ⟨mode &&& 0o777, by
    rw [BitVec.and_assoc, BitVec.and_self]⟩)

structure PrintMaskOp where
  onlyPrint : Bool
  reuse : Bool
  symbolic : Bool

inductive UmaskError where
  | invalidOption
  | outOfRange (value : Bytes)
  | invalidOperator (ch : UInt8)

/- How a call ends: its status, the mask of the process, what
is printed and the error. -/
structure Outcome where
  status : Nat
  process : ProcessMask
  printed : Option (Mode × PrintMaskOp)
  error : Option UmaskError

/- An operand that starts with a digit is an octal number. -/
def parseOperand
    (value : Bytes)
    (mask : Mode) : Option (Except UmaskError Mode) :=
  if value.head?.any (fun ch => 0x30 ≤ ch ∧ ch ≤ 0x39) then
    match NumUtil.convertToNum 0x100000000 8 value with
    | none => some (.error (.outOfRange value))
    | some num =>
        if num < 0 ∨ num > 0o777 then
          some (.error (.outOfRange value))
        else
          some (.ok (BitVec.ofInt 32 num))
  else do
    let ret ← parseSymbolicMode value mask
    if ret.success then
      return .ok ret.mode
    else
      return .error (.invalidOperator ret.invalid)

/- The options have been read: there was an invalid one, or
they are the flags, and the next argument is the operand. -/
def builtin_umask
    (options : Option PrintMaskOp)
    (operand : Option Bytes)
    (process : ProcessMask) : Option Outcome :=
  match options with
  | none => some ⟨2, process, none, some .invalidOption⟩
  | some op =>
      let (mask, process) := umask 0 process
      let (_, process) := umask mask process
      match operand with
      | none => some ⟨0, process, some (mask, op), none⟩
      | some value =>
          (parseOperand value mask).map fun
            | .error error => ⟨1, process, none, some error⟩
            | .ok mask =>
                let op :=
                  { op with onlyPrint := false, reuse := false }
                ⟨0, (umask mask process).2, some (mask, op),
                  none⟩

----
-- Symbolic Modes
----

inductive Class where
  | user
  | group
  | other
  deriving DecidableEq

inductive Who where
  | only (cls : Class)
  | all
  deriving DecidableEq

inductive Op where
  | add
  | remove
  | assign

inductive Perm where
  | read
  | write
  | exec
  deriving DecidableEq

structure Clause where
  who : List Who
  op : Op
  perms : List Perm

def Who.letter : Who → UInt8
  | .only .user => 0x75
  | .only .group => 0x67
  | .only .other => 0x6F
  | .all => 0x61

def Op.letter : Op → UInt8
  | .add => plus
  | .remove => minus
  | .assign => equals

def Perm.letter : Perm → UInt8
  | .read => 0x72
  | .write => 0x77
  | .exec => 0x78

/- `MODE = [ugoa]* [+-=] [rwx]*` -/
def Clause.text (clause : Clause) : Bytes :=
  clause.who.map Who.letter ++
    clause.op.letter :: clause.perms.map Perm.letter

/- `MODES = MODE (, MODE)*` -/
def modesText : List Clause → Bytes
  | [] => []
  | clause :: clauses =>
      clause.text ++
        clauses.flatMap (fun clause => comma :: clause.text)

/- Without letters, a clause is about all classes. -/
def Clause.covers
    (clause : Clause)
    (cls : Class) : Prop :=
  clause.who = [] ∨ .all ∈ clause.who ∨ .only cls ∈ clause.who

instance
    (clause : Clause)
    (cls : Class) :
    Decidable (clause.covers cls) := by
  unfold Clause.covers
  infer_instance

/- The permissions that are denied after a clause. -/
def Clause.apply
    (clause : Clause)
    (denied : Class → Perm → Bool) : Class → Perm → Bool :=
  fun cls perm =>
    if clause.covers cls then
      match clause.op with
      | .add => denied cls perm && decide (perm ∉ clause.perms)
      | .remove =>
          denied cls perm || decide (perm ∈ clause.perms)
      | .assign => decide (perm ∉ clause.perms)
    else
      denied cls perm

/- The bit of a mask that denies a permission. -/
def bitOf : Class → Perm → Nat
  | .user, .read => 8
  | .user, .write => 7
  | .user, .exec => 6
  | .group, .read => 5
  | .group, .write => 4
  | .group, .exec => 3
  | .other, .read => 2
  | .other, .write => 1
  | .other, .exec => 0

def denied
    (mode : Mode)
    (cls : Class)
    (perm : Perm) : Bool :=
  mode.getLsbD (bitOf cls perm)

----
-- Bits
----

def Who.bits : Who → Mode
  | .only .user => 0o700
  | .only .group => 0o070
  | .only .other => 0o007
  | .all => 0o777

def Perm.bits : Perm → Mode
  | .read => 0o444
  | .write => 0o222
  | .exec => 0o111

/- The bits that some letters set. -/
def orBits
    {α : Type}
    (bits : α → Mode)
    (letters : List α)
    (mode : Mode) : Mode :=
  letters.foldl (fun mode letter => mode ||| bits letter) mode

theorem getLsbD_orBits
    {α : Type}
    (bits : α → Mode)
    (letters : List α)
    (mode : Mode)
    (i : Nat) :
    (orBits bits letters mode).getLsbD i =
      (mode.getLsbD i ||
        letters.any (fun letter => (bits letter).getLsbD i)) := by
  induction letters generalizing mode with
  | nil => simp [orBits]
  | cons letter letters ih =>
      rw [List.any_cons, ← Bool.or_assoc,
        ← BitVec.getLsbD_or]
      exact ih _

/- The classes a clause is about, as bits. -/
def userOf (who : List Who) : Mode :=
  let user := orBits Who.bits who 0
  if user = 0 then 0o777 else user

def permsOf
    (user : Mode)
    (perms : List Perm) : Mode :=
  orBits (fun perm => perm.bits &&& user) perms 0

def Clause.maskAfter
    (clause : Clause)
    (mode : Mode) : Mode :=
  applyOp clause.op.letter (userOf clause.who)
    (permsOf (userOf clause.who) clause.perms) mode

theorem Who.bits_bitOf
    (who : Who)
    (cls : Class)
    (perm : Perm) :
    who.bits.getLsbD (bitOf cls perm) =
      decide (who = .all ∨ who = .only cls) := by
  cases who with
  | all => cases cls <;> cases perm <;> rfl
  | only named =>
      cases named <;> cases cls <;> cases perm <;> rfl

theorem Perm.bits_bitOf
    (letter : Perm)
    (cls : Class)
    (perm : Perm) :
    letter.bits.getLsbD (bitOf cls perm) =
      decide (letter = perm) := by
  cases letter <;> cases cls <;> cases perm <;> rfl

/- The bits of a letter are below the ninth. -/
theorem Who.bits_high
    (who : Who)
    {i : Nat}
    (hHigh : 9 ≤ i) :
    who.bits.getLsbD i = false := by
  apply Nat.testBit_lt_two_pow
  apply Nat.lt_of_lt_of_le _
    (Nat.pow_le_pow_right Nat.two_pos hHigh)
  cases who with
  | all => decide
  | only named => cases named <;> decide

/- No letter is without bits. -/
theorem Who.exists_bit (who : Who) :
    ∃ i, who.bits.getLsbD i = true := by
  cases who with
  | all => exact ⟨0, rfl⟩
  | only named =>
      cases named with
      | user => exact ⟨6, rfl⟩
      | group => exact ⟨3, rfl⟩
      | other => exact ⟨0, rfl⟩

theorem getLsbD_userOf
    (who : List Who)
    (i : Nat) :
    (userOf who).getLsbD i =
      if who = [] then Who.all.bits.getLsbD i
      else who.any (fun letter => letter.bits.getLsbD i) := by
  have hBits :=
    getLsbD_orBits Who.bits who 0
  unfold userOf
  cases who with
  | nil => rfl
  | cons letter letters =>
      have hUser :
          orBits Who.bits (letter :: letters) 0 ≠ 0 := by
        intro hZero
        rcases letter.exists_bit with ⟨j, hBit⟩
        have hSet := hBits j
        rw [hZero, List.any_cons, hBit] at hSet
        simp at hSet
      rw [if_neg (List.cons_ne_nil _ _)]
      simp only [if_neg hUser, hBits i]
      simp

/- The bits of the classes a clause is about. -/
theorem userOf_bitOf
    (clause : Clause)
    (cls : Class)
    (perm : Perm) :
    (userOf clause.who).getLsbD (bitOf cls perm) =
      decide (clause.covers cls) := by
  rw [getLsbD_userOf]
  by_cases hNil : clause.who = []
  · rw [if_pos hNil, Who.bits_bitOf]
    simp [Clause.covers, hNil]
  · rw [if_neg hNil, Bool.eq_iff_iff, List.any_eq_true,
      decide_eq_true_eq]
    simp only [Who.bits_bitOf, decide_eq_true_eq]
    constructor
    · rintro ⟨letter, hMem, rfl | rfl⟩
      · exact Or.inr (Or.inl hMem)
      · exact Or.inr (Or.inr hMem)
    · rintro (hEmpty | hAll | hOnly)
      · exact absurd hEmpty hNil
      · exact ⟨_, hAll, Or.inl rfl⟩
      · exact ⟨_, hOnly, Or.inr rfl⟩

theorem permsOf_bitOf
    (clause : Clause)
    (cls : Class)
    (perm : Perm) :
    (permsOf (userOf clause.who) clause.perms).getLsbD
        (bitOf cls perm) =
      decide (clause.covers cls ∧ perm ∈ clause.perms) := by
  unfold permsOf
  rw [getLsbD_orBits]
  simp only [BitVec.getLsbD_and, Perm.bits_bitOf, userOf_bitOf]
  rw [Bool.eq_iff_iff]
  simp [and_comm]

theorem userOf_high
    (who : List Who)
    {i : Nat}
    (hHigh : 9 ≤ i) :
    (userOf who).getLsbD i = false := by
  rw [getLsbD_userOf]
  by_cases hNil : who = []
  · rw [if_pos hNil]
    exact Who.all.bits_high hHigh
  · rw [if_neg hNil]
    simp [Who.bits_high _ hHigh]

theorem getLsbD_setFlag
    (set flag : Mode)
    (i : Nat) :
    (setFlag set flag).getLsbD i =
      (set.getLsbD i || flag.getLsbD i) :=
  BitVec.getLsbD_or

theorem getLsbD_unsetFlag
    (set flag : Mode)
    (i : Nat) :
    (unsetFlag set flag).getLsbD i =
      (set.getLsbD i && !flag.getLsbD i) := by
  unfold unsetFlag
  rw [BitVec.getLsbD_and, BitVec.getLsbD_not]
  by_cases hLt : i < 32
  · simp [hLt]
  · simp [BitVec.getLsbD_of_ge set i (Nat.le_of_not_lt hLt)]

/- A bit of the mask after a clause. -/
theorem getLsbD_maskAfter
    (clause : Clause)
    (mode : Mode)
    (i : Nat) :
    (clause.maskAfter mode).getLsbD i =
      match clause.op with
      | .add =>
          mode.getLsbD i &&
            !(permsOf (userOf clause.who)
              clause.perms).getLsbD i
      | .remove =>
          mode.getLsbD i ||
            (permsOf (userOf clause.who) clause.perms).getLsbD i
      | .assign =>
          (mode.getLsbD i || (userOf clause.who).getLsbD i) &&
            !(permsOf (userOf clause.who)
              clause.perms).getLsbD i := by
  unfold Clause.maskAfter
  cases clause.op with
  | add => exact getLsbD_unsetFlag _ _ _
  | remove => exact getLsbD_setFlag _ _ _
  | assign =>
      show (unsetFlag (setFlag _ _) _).getLsbD i = _
      rw [getLsbD_unsetFlag, getLsbD_setFlag]

/- The mask after a clause denies what the clause says. -/
theorem denied_maskAfter
    (clause : Clause)
    (mode : Mode) :
    denied (clause.maskAfter mode) =
      clause.apply (denied mode) := by
  funext cls perm
  unfold denied Clause.apply
  rw [getLsbD_maskAfter, userOf_bitOf, permsOf_bitOf]
  by_cases hCovers : clause.covers cls
  · cases clause.op with
    | add => simp [hCovers]
    | remove => simp [hCovers]
    | assign => simp [hCovers]
  · cases clause.op with
    | add => simp [hCovers]
    | remove => simp [hCovers]
    | assign => simp [hCovers]

theorem permsOf_high
    (who : List Who)
    (perms : List Perm)
    {i : Nat}
    (hHigh : 9 ≤ i) :
    (permsOf (userOf who) perms).getLsbD i = false := by
  unfold permsOf
  rw [getLsbD_orBits]
  simp [userOf_high who hHigh]

/- The other bits of a mask stay as they are. -/
theorem maskAfter_high
    (clause : Clause)
    (mode : Mode)
    {i : Nat}
    (hHigh : 9 ≤ i) :
    (clause.maskAfter mode).getLsbD i = mode.getLsbD i := by
  rw [getLsbD_maskAfter, userOf_high clause.who hHigh,
    permsOf_high clause.who clause.perms hHigh]
  cases clause.op with
  | add => simp
  | remove => simp
  | assign => simp

----
-- Reading a Clause
----

theorem userBits_letter (who : Who) :
    userBits who.letter = some who.bits := by
  cases who with
  | all => rfl
  | only named => cases named <;> rfl

theorem permBits_letter (perm : Perm) :
    permBits perm.letter = some perm.bits := by
  cases perm <;> rfl

theorem exists_who
    {ch : UInt8}
    {bits : Mode}
    (hBits : userBits ch = some bits) :
    ∃ who : Who, who.letter = ch := by
  unfold userBits at hBits
  split_ifs at hBits with hUser hGroup hOther hAll
  · exact ⟨.only .user, hUser.symm⟩
  · exact ⟨.only .group, hGroup.symm⟩
  · exact ⟨.only .other, hOther.symm⟩
  · exact ⟨.all, hAll.symm⟩

theorem exists_perm
    {ch : UInt8}
    {bits : Mode}
    (hBits : permBits ch = some bits) :
    ∃ perm : Perm, perm.letter = ch := by
  unfold permBits at hBits
  split_ifs at hBits with hRead hWrite hExec
  · exact ⟨.read, hRead.symm⟩
  · exact ⟨.write, hWrite.symm⟩
  · exact ⟨.exec, hExec.symm⟩

/- Letters are read up to another character. -/
theorem parseUser_letters
    (who : List Who)
    {ch : UInt8}
    (hStop : userBits ch = none)
    (rest : Bytes)
    (value : Nat)
    (user : Mode) :
    parseUser (who.map Who.letter ++ ch :: rest) value user =
      some (value + who.length, orBits Who.bits who user) := by
  induction who generalizing value user with
  | nil => simp [parseUser, hStop, orBits]
  | cons letter letters ih =>
      simp only [List.map_cons, List.cons_append, parseUser,
        userBits_letter, ih, List.length_cons, orBits,
        List.foldl_cons]
      rw [Nat.add_right_comm, Nat.add_assoc]

/- The end of a clause. -/
def IsEnd (ch : UInt8) : Prop :=
  ch = 0 ∨ ch = comma

theorem letter_not_end (perm : Perm) :
    ¬ IsEnd perm.letter := by
  unfold IsEnd
  cases perm <;> decide

theorem parsePerms_letters
    (user : Mode)
    (perms : List Perm)
    (text : Bytes)
    (value : Nat)
    (mode : Mode) :
    parsePerms user (perms.map Perm.letter ++ text) value mode =
      parsePerms user text (value + perms.length)
        (orBits (fun perm => perm.bits &&& user) perms
          mode) := by
  induction perms generalizing value mode with
  | nil => rfl
  | cons letter letters ih =>
      have hEnd := letter_not_end letter
      unfold IsEnd at hEnd
      simp only [List.map_cons, List.cons_append, parsePerms,
        if_neg hEnd, permBits_letter, ih, List.length_cons,
        orBits, List.foldl_cons]
      rw [Nat.add_right_comm, Nat.add_assoc]

/- What stands in memory behind some characters. -/
theorem memory_append
    {ref front rest : Bytes}
    {value : Nat}
    (hMemory : memory ref value = front ++ rest) :
    memory ref (value + front.length) = rest := by
  unfold memory at hMemory ⊢
  rw [← List.drop_drop, hMemory, List.drop_left]

theorem deref_cons
    {ref rest : Bytes}
    {ch : UInt8}
    {value : Nat}
    (hMemory : memory ref value = ch :: rest) :
    deref ref value = some ch := by
  unfold deref
  rw [hMemory]
  rfl

theorem op_letter (op : Op) :
    userBits op.letter = none ∧
      ¬ (op.letter ≠ minus ∧ op.letter ≠ plus ∧
        op.letter ≠ equals) := by
  cases op <;> decide

theorem exists_op
    {ch : UInt8}
    (hOp : ¬ (ch ≠ minus ∧ ch ≠ plus ∧ ch ≠ equals)) :
    ∃ op : Op, op.letter = ch := by
  by_cases hMinus : ch = minus
  · exact ⟨.remove, hMinus.symm⟩
  · by_cases hPlus : ch = plus
    · exact ⟨.add, hPlus.symm⟩
    · by_cases hEquals : ch = equals
      · exact ⟨.assign, hEquals.symm⟩
      · exact absurd ⟨hMinus, hPlus, hEquals⟩ hOp

/- Once the letters of the classes and the operator have been
read, the permissions are. -/
theorem parseMode_op
    {ref text : Bytes}
    {value : Nat}
    (who : List Who)
    (op : Op)
    (hMemory :
      memory ref value =
        who.map Who.letter ++ op.letter :: text)
    (mode : Mode) :
    parseMode ref value mode =
      (parsePerms (userOf who) text (value + who.length + 1)
        0).map
        (fun ret =>
          if ret.1 then
            (true, ret.2.1,
              applyOp op.letter (userOf who) ret.2.2 mode)
          else
            (false, ret.2.1, mode)) := by
  have hUser :
      parseUser (memory ref value) value 0 =
        some (value + who.length, orBits Who.bits who 0) := by
    rw [hMemory]
    exact parseUser_letters who (op_letter op).1 _ _ _
  have hRest :
      memory ref (value + who.length) = op.letter :: text := by
    have hRest := memory_append hMemory
    rwa [List.length_map] at hRest
  have hText : memory ref (value + who.length + 1) = text :=
    @memory_append ref [op.letter] text _ hRest
  unfold parseMode
  rw [hUser]
  simp only [Option.bind_eq_bind, Option.bind_some,
    deref_cons hRest, if_neg (op_letter op).2, hText]
  unfold userOf
  cases parsePerms _ text _ _ with
  | none => rfl
  | some ret =>
      rcases ret with ⟨success, place, newMode⟩
      cases success with
      | false => rfl
      | true => rfl

theorem parsePerms_end
    {ch : UInt8}
    (hEnd : IsEnd ch)
    (user : Mode)
    (text : Bytes)
    (value : Nat)
    (mode : Mode) :
    parsePerms user (ch :: text) value mode =
      some (true, value, mode) :=
  if_pos hEnd

theorem parsePerms_other
    {ch : UInt8}
    (hEnd : ¬ IsEnd ch)
    (hOther : permBits ch = none)
    (user : Mode)
    (text : Bytes)
    (value : Nat)
    (mode : Mode) :
    parsePerms user (ch :: text) value mode =
      some (false, value + 1, mode) := by
  unfold IsEnd at hEnd
  simp only [parsePerms, if_neg hEnd, hOther]

theorem Clause.length_text (clause : Clause) :
    clause.text.length =
      clause.who.length + 1 + clause.perms.length := by
  unfold Clause.text
  simp only [List.length_append, List.length_map,
    List.length_cons]
  omega

/- A clause that is well formed is read to its end. -/
theorem parseMode_clause
    {ref rest : Bytes}
    {value : Nat}
    {ch : UInt8}
    (clause : Clause)
    (hMemory : memory ref value = clause.text ++ ch :: rest)
    (hEnd : IsEnd ch)
    (mode : Mode) :
    parseMode ref value mode =
      some (true, value + clause.text.length,
        clause.maskAfter mode) := by
  rw [Clause.length_text]
  unfold Clause.text at hMemory
  rw [List.append_assoc, List.cons_append] at hMemory
  rw [parseMode_op clause.who clause.op hMemory,
    parsePerms_letters, parsePerms_end hEnd]
  simp only [Nat.add_assoc]
  rfl

/- The letters at the start of a text. -/
theorem split_letters
    {α : Type}
    {letter : α → UInt8}
    (hLetter : ∀ a, letter a ≠ 0)
    (body : Bytes) :
    ∃ letters ch rest,
      body ++ [0] = List.map letter letters ++ ch :: rest ∧
        ¬ ∃ a, letter a = ch := by
  induction body with
  | nil =>
      refine ⟨[], 0, [], rfl, ?_⟩
      rintro ⟨a, hZero⟩
      exact hLetter a hZero
  | cons ch body ih =>
      by_cases hFirst : ∃ a, letter a = ch
      · rcases hFirst with ⟨a, rfl⟩
        rcases ih with ⟨letters, other, rest, hBody, hOther⟩
        refine ⟨a :: letters, other, rest, ?_, hOther⟩
        rw [List.cons_append, hBody]
        rfl
      · exact ⟨[], ch, body ++ [0], rfl, hFirst⟩

theorem memory_eq
    {ref : Bytes}
    {value : Nat}
    (hValue : value ≤ ref.length) :
    memory ref value = ref.drop value ++ [0] :=
  List.drop_append_of_le_length hValue

theorem length_memory
    (ref : Bytes)
    (value : Nat) :
    (memory ref value).length = ref.length + 1 - value := by
  unfold memory
  rw [List.length_drop, List.length_append]
  rfl

/- Only the last place holds the null character. -/
theorem lt_of_ne_zero
    {ref rest : Bytes}
    {value : Nat}
    {ch : UInt8}
    (hMemory : memory ref value = ch :: rest)
    (hChar : ch ≠ 0) :
    value < ref.length := by
  have hLength := length_memory ref value
  rw [hMemory, List.length_cons] at hLength
  by_contra hGe
  have hEq : value = ref.length := by
    omega
  rw [hEq, memory_eq (Nat.le_refl _), List.drop_length]
    at hMemory
  exact hChar (List.cons.inj hMemory).1.symm

theorem who_letter_ne (who : Who) : who.letter ≠ 0 := by
  cases who with
  | all => decide
  | only named => cases named <;> decide

theorem op_letter_ne (op : Op) : op.letter ≠ 0 := by
  cases op <;> decide

theorem perm_letter_ne (perm : Perm) : perm.letter ≠ 0 := by
  cases perm <;> decide

theorem userBits_of_other
    {ch : UInt8}
    (hOther : ¬ ∃ who : Who, who.letter = ch) :
    userBits ch = none := by
  cases hBits : userBits ch with
  | none => rfl
  | some bits => exact absurd (exists_who hBits) hOther

theorem permBits_of_other
    {ch : UInt8}
    (hOther : ¬ ∃ perm : Perm, perm.letter = ch) :
    permBits ch = none := by
  cases hBits : permBits ch with
  | none => rfl
  | some bits => exact absurd (exists_perm hBits) hOther

/- Without an operator, a clause fails behind the character in
its place. -/
theorem parseMode_no_op
    {ref rest : Bytes}
    {value : Nat}
    {ch : UInt8}
    (who : List Who)
    (hMemory :
      memory ref value = who.map Who.letter ++ ch :: rest)
    (hOther : ¬ ∃ who : Who, who.letter = ch)
    (hOp : ch ≠ minus ∧ ch ≠ plus ∧ ch ≠ equals)
    (mode : Mode) :
    parseMode ref value mode =
      some (false, value + who.length + 1, mode) := by
  have hUser :
      parseUser (memory ref value) value 0 =
        some (value + who.length, orBits Who.bits who 0) := by
    rw [hMemory]
    exact
      parseUser_letters who (userBits_of_other hOther) _ _ _
  have hRest := memory_append hMemory
  rw [List.length_map] at hRest
  unfold parseMode
  rw [hUser]
  simp only [Option.bind_eq_bind, Option.bind_some,
    deref_cons hRest, if_pos hOp]
  rfl

/- A place holds a clause, or the clause that is read there
fails before the end of the memory. -/
theorem parseMode_cases
    {ref : Bytes}
    {value : Nat}
    (hValue : value ≤ ref.length)
    (mode : Mode) :
    (∃ clause : Clause, ∃ ch rest,
        memory ref value = clause.text ++ ch :: rest ∧
          IsEnd ch) ∨
      ∃ place,
        parseMode ref value mode = some (false, place, mode) ∧
          0 < place ∧ place ≤ ref.length + 1 := by
  rcases split_letters who_letter_ne (ref.drop value) with
    ⟨who, ch, rest, hWho, hNotWho⟩
  rw [← memory_eq hValue] at hWho
  have hRest := memory_append hWho
  rw [List.length_map] at hRest
  have hLength := length_memory ref (value + who.length)
  rw [hRest, List.length_cons] at hLength
  by_cases hOp : ch ≠ minus ∧ ch ≠ plus ∧ ch ≠ equals
  · right
    exact
      ⟨value + who.length + 1,
        parseMode_no_op who hWho hNotWho hOp mode,
        Nat.succ_pos _, by omega⟩
  · rcases exists_op hOp with ⟨op, rfl⟩
    have hLt := lt_of_ne_zero hRest (op_letter_ne op)
    have hText : memory ref (value + who.length + 1) = rest :=
      @memory_append ref [op.letter] rest _ hRest
    rcases split_letters perm_letter_ne
        (ref.drop (value + who.length + 1)) with
      ⟨perms, last, tail, hPerms, hNotPerm⟩
    rw [← memory_eq hLt, hText] at hPerms
    rw [hPerms] at hWho hText
    by_cases hEnd : IsEnd last
    · left
      refine ⟨⟨who, op, perms⟩, last, tail, ?_, hEnd⟩
      rw [hWho]
      unfold Clause.text
      rw [List.append_assoc, List.cons_append]
    · right
      have hTail := length_memory ref (value + who.length + 1)
      rw [hText, List.length_append, List.length_map,
        List.length_cons] at hTail
      refine
        ⟨value + who.length + 1 + perms.length + 1, ?_,
          Nat.succ_pos _, by omega⟩
      rw [parseMode_op who op hWho, parsePerms_letters,
        parsePerms_other hEnd (permBits_of_other hNotPerm)]
      rfl

----
-- Reading Clauses
----

/- The clauses behind the first one, with their commas. -/
def moreText (clauses : List Clause) : Bytes :=
  clauses.flatMap (fun clause => comma :: clause.text)

def modeAfter
    (clauses : List Clause)
    (mode : Mode) : Mode :=
  clauses.foldl (fun mode clause => clause.maskAfter mode) mode

/- Behind some clauses stands the end of a clause. -/
theorem moreText_end (clauses : List Clause) :
    ∃ ch rest,
      moreText clauses ++ [0] = ch :: rest ∧ IsEnd ch := by
  cases clauses with
  | nil => exact ⟨0, [], rfl, Or.inl rfl⟩
  | cons clause clauses => exact ⟨comma, _, rfl, Or.inr rfl⟩

theorem comma_ne : comma ≠ 0 := by
  decide

theorem parseMore_clauses
    {ref : Bytes}
    {value rounds : Nat}
    (clauses : List Clause)
    (hMemory : memory ref value = moreText clauses ++ [0])
    (hRounds : clauses.length < rounds)
    (mode : Mode) :
    parseMore ref rounds value mode =
      some ⟨true, 0, modeAfter clauses mode⟩ := by
  induction clauses generalizing value rounds mode with
  | nil =>
      cases rounds with
      | zero => exact absurd hRounds (Nat.not_lt_zero _)
      | succ rounds =>
          simp [parseMore, deref_cons hMemory, modeAfter]
  | cons clause clauses ih =>
      cases rounds with
      | zero => exact absurd hRounds (Nat.not_lt_zero _)
      | succ rounds =>
          rcases moreText_end clauses with
            ⟨ch, rest, hEndText, hEnd⟩
          have hHere :
              memory ref value =
                comma :: (clause.text ++
                  (moreText clauses ++ [0])) := by
            rw [hMemory]
            simp [moreText]
          have hClause :
              memory ref (value + 1) =
                clause.text ++ (moreText clauses ++ [0]) :=
            @memory_append ref [comma] _ _ hHere
          have hMore := memory_append hClause
          rw [hEndText] at hClause
          have hNext :=
            ih hMore (Nat.lt_of_succ_lt_succ hRounds)
              (clause.maskAfter mode)
          simp only [parseMore, deref_cons hHere,
            Option.bind_eq_bind, Option.bind_some,
            if_neg comma_ne, if_true,
            parseMode_clause clause hClause hEnd mode]
          exact hNext

/- The invalid character is always in memory. -/
theorem exists_failed
    {ref : Bytes}
    {place : Nat}
    (hPos : 0 < place)
    (hPlace : place ≤ ref.length + 1)
    (mode : Mode) :
    ∃ ch, failed ref place mode = some ⟨false, ch, mode⟩ := by
  have hLength := length_memory ref (place - 1)
  cases hMemory : memory ref (place - 1) with
  | nil =>
      rw [hMemory, List.length_nil] at hLength
      omega
  | cons ch rest =>
      refine ⟨ch, ?_⟩
      unfold failed
      rw [deref_cons hMemory]
      rfl

/- The null character is at the end only. -/
theorem memory_zero
    {ref rest : Bytes}
    {value : Nat}
    (hNull : 0 ∉ ref)
    (hMemory : memory ref value = 0 :: rest) :
    rest = [] := by
  cases rest with
  | nil => rfl
  | cons ch rest =>
      have hLength := length_memory ref value
      rw [hMemory, List.length_cons, List.length_cons]
        at hLength
      have hLt : value < ref.length := by
        omega
      rw [memory_eq (Nat.le_of_lt hLt),
        List.drop_eq_getElem_cons hLt] at hMemory
      have hZero : ref[value] = 0 := (List.cons.inj hMemory).1
      rw [← hZero] at hNull
      exact absurd (List.getElem_mem hLt) hNull

theorem parseMore_cases
    {ref rest : Bytes}
    {value rounds : Nat}
    {ch : UInt8}
    (hNull : 0 ∉ ref)
    (hMemory : memory ref value = ch :: rest)
    (hEnd : IsEnd ch)
    (hRounds : ref.length < value + rounds)
    (hValue : value ≤ ref.length)
    (mode : Mode) :
    ∃ ret,
      parseMore ref rounds value mode = some ret ∧
        (ret.success = true →
          ∃ clauses,
            memory ref value = moreText clauses ++ [0]) := by
  induction rounds generalizing value rest ch mode with
  | zero => omega
  | succ rounds ih =>
      simp only [parseMore, deref_cons hMemory,
        Option.bind_eq_bind, Option.bind_some]
      rcases hEnd with rfl | rfl
      · refine ⟨⟨true, 0, mode⟩, rfl, ?_⟩
        intro _
        rw [memory_zero hNull hMemory] at hMemory
        exact ⟨[], hMemory⟩
      · have hLt := lt_of_ne_zero hMemory comma_ne
        have hText : memory ref (value + 1) = rest :=
          @memory_append ref [comma] rest _ hMemory
        rw [if_neg comma_ne, if_pos rfl]
        rcases parseMode_cases hLt mode with
          ⟨clause, last, tail, hClause, hLast⟩ |
          ⟨place, hFail, hPos, hPlace⟩
        · -- the clause is read, and the others from its end on
          have hNext := memory_append hClause
          have hLength :=
            length_memory ref (value + 1 + clause.text.length)
          rw [hNext, List.length_cons] at hLength
          rcases
            ih hNext hLast (by omega) (by omega)
              (clause.maskAfter mode) with
            ⟨ret, hRet, hClauses⟩
          refine ⟨ret, ?_, ?_⟩
          · rw [parseMode_clause clause hClause hLast]
            exact hRet
          · intro hSuccess
            rcases hClauses hSuccess with ⟨clauses, hMore⟩
            refine ⟨clause :: clauses, ?_⟩
            rw [hMemory, ← hText, hClause, ← hNext, hMore]
            simp [moreText]
        · rcases exists_failed hPos hPlace mode with
            ⟨invalid, hFailed⟩
          refine ⟨⟨false, invalid, mode⟩, ?_, ?_⟩
          · rw [hFail]
            exact hFailed
          · intro hSuccess
            exact absurd hSuccess Bool.false_ne_true

theorem length_le_moreText (clauses : List Clause) :
    clauses.length ≤ (moreText clauses).length := by
  induction clauses with
  | nil => exact Nat.le_refl _
  | cons clause clauses ih =>
      unfold moreText at ih ⊢
      rw [List.flatMap_cons, List.length_append,
        List.length_cons, List.length_cons]
      omega

theorem not_mem_text (clause : Clause) :
    0 ∉ clause.text := by
  unfold Clause.text
  rw [List.mem_append, List.mem_cons, List.mem_map,
    List.mem_map]
  rintro (⟨who, _, hZero⟩ | hZero | ⟨perm, _, hZero⟩)
  · exact who_letter_ne who hZero
  · exact op_letter_ne clause.op hZero.symm
  · exact perm_letter_ne perm hZero

theorem not_mem_modesText (clauses : List Clause) :
    0 ∉ modesText clauses := by
  cases clauses with
  | nil => exact List.not_mem_nil
  | cons clause clauses =>
      unfold modesText
      rw [List.mem_append, List.mem_flatMap]
      rintro (hFirst | ⟨other, _, hOther⟩)
      · exact not_mem_text clause hFirst
      · rcases List.mem_cons.mp hOther with hComma | hText
        · exact comma_ne hComma.symm
        · exact not_mem_text other hText

/- Modes that are well formed are read to their end. -/
theorem parseSymbolicMode_modes
    {clauses : List Clause}
    (hClauses : clauses ≠ [])
    (mode : Mode) :
    parseSymbolicMode (modesText clauses) mode =
      some ⟨true, 0, modeAfter clauses mode⟩ := by
  cases clauses with
  | nil => exact absurd rfl hClauses
  | cons clause clauses =>
      rcases moreText_end clauses with
        ⟨ch, rest, hEndText, hEnd⟩
      have hHere :
          memory (modesText (clause :: clauses)) 0 =
            clause.text ++ (moreText clauses ++ [0]) :=
        List.append_assoc _ _ _
      have hMore := memory_append hHere
      rw [hEndText] at hHere
      have hLength := length_le_moreText clauses
      have hRounds :
          clauses.length <
            (modesText (clause :: clauses)).length + 1 := by
        unfold modesText
        rw [List.length_append]
        unfold moreText at hLength
        omega
      unfold parseSymbolicMode
      rw [if_neg (not_mem_modesText _),
        parseMode_clause clause hHere hEnd mode]
      exact parseMore_clauses clauses hMore hRounds _

/- What is read successfully is well formed, and the memory
is never left. -/
theorem parseSymbolicMode_cases
    (ref : Bytes)
    (mode : Mode) :
    ∃ ret,
      parseSymbolicMode ref mode = some ret ∧
        (ret.success = true →
          ∃ clauses, clauses ≠ [] ∧ ref = modesText clauses) := by
  unfold parseSymbolicMode
  by_cases hNull : 0 ∈ ref
  · rw [if_pos hNull]
    exact ⟨⟨false, 0, mode⟩, rfl, fun hSuccess =>
      absurd hSuccess Bool.false_ne_true⟩
  · rw [if_neg hNull]
    rcases parseMode_cases (Nat.zero_le ref.length) mode with
      ⟨clause, last, tail, hClause, hLast⟩ |
      ⟨place, hFail, hPos, hPlace⟩
    · have hNext := memory_append hClause
      have hLength := length_memory ref (0 + clause.text.length)
      rw [hNext, List.length_cons] at hLength
      rcases
        parseMore_cases hNull hNext hLast
          (show ref.length <
              0 + clause.text.length + (ref.length + 1) by
            omega)
          (by omega) (clause.maskAfter mode) with
        ⟨ret, hRet, hClauses⟩
      refine ⟨ret, ?_, ?_⟩
      · rw [parseMode_clause clause hClause hLast]
        exact hRet
      · intro hSuccess
        rcases hClauses hSuccess with ⟨clauses, hMore⟩
        refine ⟨clause :: clauses, List.cons_ne_nil _ _, ?_⟩
        rw [hMore] at hNext
        rw [← hNext, ← List.append_assoc] at hClause
        exact List.append_cancel_right hClause
    · rcases exists_failed hPos hPlace mode with
        ⟨invalid, hFailed⟩
      refine ⟨⟨false, invalid, mode⟩, ?_, ?_⟩
      · rw [hFail]
        exact hFailed
      · intro hSuccess
        exact absurd hSuccess Bool.false_ne_true

----
-- Results
----

theorem denied_modeAfter
    (clauses : List Clause)
    (mode : Mode) :
    denied (modeAfter clauses mode) =
      clauses.foldl (fun denied clause => clause.apply denied)
        (denied mode) := by
  induction clauses generalizing mode with
  | nil => rfl
  | cons clause clauses ih =>
      rw [List.foldl_cons, ← denied_maskAfter]
      exact ih (clause.maskAfter mode)

theorem modeAfter_high
    (clauses : List Clause)
    (mode : Mode)
    {i : Nat}
    (hHigh : 9 ≤ i) :
    (modeAfter clauses mode).getLsbD i = mode.getLsbD i := by
  induction clauses generalizing mode with
  | nil => rfl
  | cons clause clauses ih =>
      rw [← maskAfter_high clause mode hHigh]
      exact ih (clause.maskAfter mode)

/- Setting the mask that is set changes nothing. -/
theorem umask_restore (process : ProcessMask) :
    (umask process.1 (umask 0 process).2).2 = process :=
  Subtype.ext process.2

/- An operand is always read to a mask or an error. -/
theorem exists_parseOperand
    (value : Bytes)
    (mask : Mode) :
    ∃ parsed, parseOperand value mask = some parsed := by
  unfold parseOperand
  split_ifs with hDigit
  · cases NumUtil.convertToNum 0x100000000 8 value with
    | none => exact ⟨_, rfl⟩
    | some num =>
        by_cases hRange : num < 0 ∨ num > 0o777
        · exact ⟨_, if_pos hRange⟩
        · exact ⟨_, if_neg hRange⟩
  · rcases parseSymbolicMode_cases value mask with
      ⟨ret, hRet, _⟩
    rw [hRet]
    cases hSuccess : ret.success with
    | false => exact ⟨.error (.invalidOperator ret.invalid), by
        simp [hSuccess]⟩
    | true => exact ⟨.ok ret.mode, by simp [hSuccess]⟩

/- Every call ends, and one that fails leaves the mask of the
process as it was. -/
theorem builtin_umask_failed
    (options : Option PrintMaskOp)
    (operand : Option Bytes)
    (process : ProcessMask) :
    ∃ outcome,
      builtin_umask options operand process = some outcome ∧
        (outcome.status ≠ 0 → outcome.process = process) := by
  cases options with
  | none => exact ⟨_, rfl, fun _ => rfl⟩
  | some op =>
      cases operand with
      | none => exact ⟨_, rfl, fun _ => umask_restore process⟩
      | some value =>
          rcases exists_parseOperand value process.1 with
            ⟨parsed, hParsed⟩
          have hOutcome :
              builtin_umask (some op) (some value) process =
                (parseOperand value process.1).map _ :=
            rfl
          rw [hParsed] at hOutcome
          cases parsed with
          | error error =>
              exact
                ⟨_, hOutcome, fun _ => umask_restore process⟩
          | ok mask =>
              exact
                ⟨_, hOutcome, fun hStatus => absurd rfl hStatus⟩

/-
  A symbolic mode is accepted if and only if it is one or more
  clauses with commas between them.  The resulting mask then
  denies what the clauses say one after the other, and has the
  other bits of the old mask.  No byte behind the null
  character is read, and a call of the builtin command that
  fails leaves the mask of the process as it was.
-/
theorem symbolicMode_exact
    (ref : Bytes)
    (mode : Mode) :
    (∃ ret,
      parseSymbolicMode ref mode = some ret ∧
        (ret.success = true ↔
          ∃ clauses, clauses ≠ [] ∧ ref = modesText clauses) ∧
        ∀ clauses, clauses ≠ [] → ref = modesText clauses →
          denied ret.mode =
              clauses.foldl
                (fun denied clause => clause.apply denied)
                (denied mode) ∧
            ∀ i, 9 ≤ i →
              ret.mode.getLsbD i = mode.getLsbD i) ∧
      ∀ options operand process,
        ∃ outcome,
          builtin_umask options operand process =
              some outcome ∧
            (outcome.status ≠ 0 →
              outcome.process = process) := by
  refine ⟨?_, builtin_umask_failed⟩
  rcases parseSymbolicMode_cases ref mode with
    ⟨ret, hRet, hCases⟩
  have hModes :
      ∀ clauses, clauses ≠ [] → ref = modesText clauses →
        ret = ⟨true, 0, modeAfter clauses mode⟩ := by
    intro clauses hClauses hRef
    rw [hRef, parseSymbolicMode_modes hClauses] at hRet
    exact (Option.some.inj hRet).symm
  refine ⟨ret, hRet, ⟨hCases, ?_⟩, ?_⟩
  · rintro ⟨clauses, hClauses, hRef⟩
    rw [hModes clauses hClauses hRef]
  · intro clauses hClauses hRef
    rw [hModes clauses hClauses hRef]
    exact
      ⟨denied_modeAfter clauses mode,
        fun i hHigh => modeAfter_high clauses mode hHigh⟩

end Umask

end Ydsh
