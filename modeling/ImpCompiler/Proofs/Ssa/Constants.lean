import Mathlib.Algebra.Group.Nat.Defs
import ImpCompiler.Ssa.Assembly

/-! # String constants read back

Between the quotes of a string constant a byte is written as itself or as a backslash with two
hexadecimal digits.  `constantBytes` reads such a text by the rule of the assembly language, which
knows nothing of which bytes the writer leaves alone.  What is written for a byte is read as that byte
whatever follows, so a whole constant is read as its bytes and the zero byte behind them
(`assembly_constant`). -/

namespace ImpCompiler

/-! ## Hexadecimal digits -/

theorem Hex.digitValue?_digit : ∀ n < 16, digitValue? (digit n) = some n := by
  decide

theorem Hex.digits_two (n : Nat) : digits 2 n = [digit (n / 16 % 16), digit (n % 16)] := rfl

/-- The digits that are written for a number write its last places. -/
theorem Hex.value?_digits (width n : Nat) : value? (digits width n) = some (n % 16 ^ width) := by
  induction width generalizing n with
  | zero => simp [digits, value?, Nat.mod_one]
  | succ width ih =>
    have front : (digits width (n / 16)).foldlM (fun n c => (digitValue? c).map (16 * n + ·)) 0 =
        some (n / 16 % 16 ^ width) := ih (n / 16)
    have last := digitValue?_digit (n % 16) (Nat.mod_lt n (by decide))
    rw [digits, value?, List.foldlM_append, front]
    simp only [Option.bind_eq_bind, Option.bind_some, List.foldlM_cons, List.foldlM_nil, last,
      Option.map_some, Option.pure_def]
    rw [Nat.pow_succ', Nat.mod_mul, Nat.add_comm]

namespace Ssa

/-! ## Reading constants -/

/-- The bytes that the text between the quotes of a constant stands for: a backslash and two
    hexadecimal digits are the byte with that number, and any other character is itself. -/
def constantBytes : List Char → List UInt8
  | [] => []
  | '\\' :: high :: low :: cs =>
    match Hex.value? [high, low] with
    | some n => UInt8.ofNat n :: constantBytes cs
    | none => String.utf8EncodeChar '\\' ++ constantBytes (high :: low :: cs)
  | c :: cs => String.utf8EncodeChar c ++ constantBytes cs

/-- A byte that is written as a number is read as that byte. -/
theorem constantBytes_escaped (b : UInt8) (cs : List Char) :
    constantBytes ('\\' :: Hex.digits 2 b.toNat ++ cs) = b :: constantBytes cs := by
  have read := Hex.value?_digits 2 b.toNat
  have small : b.toNat < 16 ^ 2 := b.toNat_lt
  rw [Hex.digits_two, Nat.mod_eq_of_lt small] at read
  rw [Hex.digits_two, List.cons_append, List.cons_append, List.cons_append, List.nil_append,
    constantBytes, read]
  exact congrArg (· :: constantBytes cs) UInt8.ofNat_toNat

theorem constantBytes_plain {c : Char} (plain : c ≠ '\\') (cs : List Char) :
    constantBytes (c :: cs) = String.utf8EncodeChar c ++ constantBytes cs := by
  rw [constantBytes]
  intro _ _ _ same _
  exact plain same

/-! ## Written bytes -/

/-- Whether a character can stand between the quotes of a constant. -/
def IsConstantChar (c : Char) : Prop :=
  ' ' ≤ c ∧ c ≤ '~' ∧ c ≠ '"'

theorem toNat_ofNat_byte (b : UInt8) : (Char.ofNat b.toNat).toNat = b.toNat := by
  have valid : b.toNat.isValidChar := .inl (Nat.lt_trans b.toNat_lt (by decide))
  delta Char.ofNat
  rw [dif_pos valid]
  rfl

theorem utf8EncodeChar_byte {b : UInt8} (ascii : b.toNat ≤ 127) :
    String.utf8EncodeChar (Char.ofNat b.toNat) = [b] := by
  have value : (Char.ofNat b.toNat).val.toNat = b.toNat := toNat_ofNat_byte b
  have single : (Char.ofNat b.toNat).utf8Size = 1 :=
    Char.utf8Size_eq_one_iff.mpr (UInt32.le_iff_toNat_le.mpr (Nat.le_trans (Nat.le_of_eq value) ascii))
  rw [String.utf8EncodeChar_eq_singleton single]
  refine congrArg ([·]) (UInt8.toNat_inj.mp ?_)
  rw [UInt32.toNat_toUInt8, value, Nat.mod_eq_of_lt b.toNat_lt]

theorem isConstantChar_digit : ∀ n < 16, IsConstantChar (Hex.digit n) := by
  unfold IsConstantChar
  decide

theorem isPlainByte_iff {b : UInt8} : isPlainByte b = true ↔
    0x20 ≤ b.toNat ∧ b.toNat ≤ 0x7E ∧ b.toNat ≠ 0x22 ∧ b.toNat ≠ 0x5C := by
  simp [isPlainByte, UInt8.le_iff_toNat_le, ← UInt8.toNat_inj, and_assoc]

/-- What is written for a byte is read as this byte, whatever follows. -/
theorem constantBytes_byteText (b : UInt8) (cs : List Char) :
    constantBytes (byteText b ++ cs) = b :: constantBytes cs := by
  rw [byteText]
  split
  · rename_i plain
    obtain ⟨_, ascii, _, slash⟩ := isPlainByte_iff.mp plain
    -- a byte that is left as it is starts no escape
    have other : Char.ofNat b.toNat ≠ '\\' := by
      intro same
      exact slash ((toNat_ofNat_byte b).symm.trans (congrArg Char.toNat same))
    have encoded := utf8EncodeChar_byte (b := b) (by omega)
    rw [List.singleton_append, constantBytes_plain other, encoded, List.singleton_append]
  · exact constantBytes_escaped b cs

theorem constantBytes_flatMap (bytes : List UInt8) : constantBytes (bytes.flatMap byteText) = bytes := by
  induction bytes with
  | nil => rfl
  | cons b bytes ih => rw [List.flatMap_cons, constantBytes_byteText, ih]

theorem isConstantChar_byteText (b : UInt8) : ∀ c ∈ byteText b, IsConstantChar c := by
  intro c member
  rw [byteText] at member
  split at member
  · rename_i plain
    obtain ⟨low, high, quote, _⟩ := isPlainByte_iff.mp plain
    rw [List.mem_singleton.mp member]
    have value := toNat_ofNat_byte b
    refine ⟨?_, ?_, fun same => quote (value.symm.trans (congrArg Char.toNat same))⟩
    · exact (Nat.le_trans low (Nat.le_of_eq value.symm) :)
    · exact (Nat.le_trans (Nat.le_of_eq value) high :)
  · obtain rfl | member := List.mem_cons.mp member
    · unfold IsConstantChar
      decide
    · simp only [Hex.digits_two, List.mem_cons, List.not_mem_nil, or_false] at member
      obtain rfl | rfl := member
      · exact isConstantChar_digit _ (Nat.mod_lt _ (by decide))
      · exact isConstantChar_digit _ (Nat.mod_lt _ (by decide))

/-! ## Written constants -/

/-- The ending of a constant is what is written for a zero byte. -/
theorem toList_bytesText (bytes : List UInt8) :
    (bytesText bytes).toList = (bytes ++ [0]).flatMap byteText := by
  have zero : byteText 0 = ['\\', '0', '0'] := by decide
  rw [bytesText, String.toList_ofList, List.flatMap_append, List.flatMap_singleton, zero]

theorem constantBytes_bytesText (bytes : List UInt8) :
    constantBytes (bytesText bytes).toList = bytes ++ [0] := by
  rw [toList_bytesText, constantBytes_flatMap]

theorem isConstantChar_bytesText (bytes : List UInt8) :
    ∀ c ∈ (bytesText bytes).toList, IsConstantChar c := by
  intro c member
  rw [toList_bytesText] at member
  obtain ⟨b, _, inside⟩ := List.mem_flatMap.mp member
  exact isConstantChar_byteText b c inside

/-- The size of a constant is the number of bytes that its text stands for. -/
theorem Global.size_eq (g : Global) : g.size = (constantBytes (bytesText g.bytes).toList).length := by
  rw [constantBytes_bytesText, List.length_append]
  rfl

theorem Module.mem_lines_of_global {m : Module} {g : Global} (member : g ∈ m.globals) :
    g.text ∈ m.lines := by
  have written : g.text ∈ m.globals.toList.map Global.text :=
    List.mem_map_of_mem (Array.mem_toList_iff.mpr member)
  have some : (m.globals.toList.map Global.text).isEmpty = false :=
    List.isEmpty_eq_false_iff.mpr (List.ne_nil_of_mem written)
  simp only [lines, some, List.mem_append]
  exact .inl (.inr (List.mem_cons_of_mem _ written))

/-- Each line of a module stands in its text. -/
theorem Module.exists_assembly_eq {m : Module} {line : String} (member : line ∈ m.lines) :
    ∃ front behind, m.assembly = front ++ line ++ "\n" ++ behind := by
  obtain ⟨before, after, split⟩ := List.append_of_mem member
  refine ⟨String.join (before.map (· ++ "\n")), String.join (after.map (· ++ "\n")), ?_⟩
  rw [m.assembly_eq_join, split, List.map_append, List.map_cons, String.join_append, String.join_cons]
  simp only [String.append_assoc]

/-- A string constant of a module is written with a text between quotes that is read as its bytes and a
    zero byte, in the number that is written in front.  The text is printable and has no quote, so that
    who reads on from the opening quote comes to the closing one and to no other. -/
theorem assembly_constant (m : Module) {g : Global} (member : g ∈ m.globals) :
    ∃ front body behind : String,
      m.assembly = front ++ "@" ++ g.name ++ " = private unnamed_addr constant [" ++
        toString (constantBytes body.toList).length ++ " x i8] c\"" ++ body ++ "\", align 1\n" ++ behind ∧
      constantBytes body.toList = g.bytes ++ [0] ∧
      (∀ c ∈ body.toList, ' ' ≤ c ∧ c ≤ '~' ∧ c ≠ '"') ∧
      (body ++ "\", align 1\n" ++ behind).toList.takeWhile (· ≠ '"') = body.toList := by
  obtain ⟨front, behind, whole⟩ := Module.exists_assembly_eq (Module.mem_lines_of_global member)
  have chars := isConstantChar_bytesText g.bytes
  refine ⟨front, bytesText g.bytes, behind, ?_, constantBytes_bytesText g.bytes, chars, ?_⟩
  · rw [whole, Global.text, g.size_eq]
    simp only [String.append_assoc]
    rfl
  · have unquoted : ∀ c ∈ (bytesText g.bytes).toList, decide (c ≠ '"') = true := fun c inside =>
      decide_eq_true (chars c inside).2.2
    rw [String.toList_append, String.toList_append, List.append_assoc, List.takeWhile_append_of_pos unquoted]
    exact List.append_nil _

/-- A backslash before two digits is no escape, a quote does not close the constant, and bytes that are
    no characters of their own are written one by one. -/
theorem assembly_constant_escapes :
    let g : Global := ⟨".str", [0x5C, 0x34, 0x31, 0x22, 0x00, 0xC3, 0xA9]⟩
    let m : Module := ⟨"m", #[], #[g]⟩
    bytesText g.bytes = "\\5C41\\22\\00\\C3\\A9\\00" ∧ g ∈ m.globals ∧
      ∃ front body behind : String,
        m.assembly = front ++ "@.str = private unnamed_addr constant [8 x i8] c\"" ++ body ++
          "\", align 1\n" ++ behind ∧
        constantBytes body.toList = [0x5C, 0x34, 0x31, 0x22, 0x00, 0xC3, 0xA9, 0x00] := by
  intro g m
  have member : g ∈ m.globals := Array.mem_singleton.mpr rfl
  obtain ⟨front, body, behind, text, read, _⟩ := assembly_constant m member
  refine ⟨by decide, member, front, body, behind, ?_, read⟩
  have head : "@" ++ g.name ++ " = private unnamed_addr constant [" ++ toString (g.bytes ++ [0]).length ++
      " x i8] c\"" = "@.str = private unnamed_addr constant [8 x i8] c\"" := by decide
  rw [text, read, ← head]
  simp only [String.append_assoc]

end Ssa

end ImpCompiler
