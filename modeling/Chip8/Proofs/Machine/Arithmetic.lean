import Chip8.Proofs.Machine.Parts

/-! Arithmetic that sets the flag, compared with that of whole numbers. Both
operands are read before anything is written, and the flag is written last, so that
it wins where it goes to the same register as the result. -/
namespace Chip8

/-- The calculations that set the flag, by the forms of their words: the result of two numbers, and
whether the flag is raised. -/
def arithmetic : List (String × (Int → Int → Int × Bool)) :=
  [("8xy4",fun a b => ((a + b) % 256,255 < a + b)),
   ("8xy5",fun a b => ((a - b) % 256,b < a)),
   ("8xy6",fun a _ => (a / 2,a % 2 = 1)),
   ("8xy7",fun a b => ((b - a) % 256,a < b)),
   ("8xyE",fun a _ => (2 * a % 256,128 ≤ a))]

theorem sub_exact (a b : UInt8) : ((a - b).toNat : Int) = ((a.toNat : Int) - b.toNat) % 256 := by
  have left := a.toNat_lt
  have right := b.toNat_lt
  rw [UInt8.toNat_sub]
  omega

theorem shiftRight_exact (a : UInt8) : (a >>> 1).toNat = a.toNat / 2 := by
  rw [UInt8.toNat_shiftRight]
  exact Nat.shiftRight_eq_div_pow a.toNat 1

theorem shiftLeft_exact (a : UInt8) : (a <<< 1).toNat = 2 * a.toNat % 256 := by
  rw [UInt8.toNat_shiftLeft]
  change a.toNat <<< 1 % 256 = _
  rw [Nat.shiftLeft_eq]
  omega

theorem overflows_exact (a b : UInt8) :
    BitVec.uaddOverflow a.toBitVec b.toBitVec = decide (255 < a.toNat + b.toNat) := by
  rw [BitVec.uaddOverflow]
  exact decide_eq_decide.mpr Nat.succ_le_iff

theorem lowBit_exact (a : UInt8) : a &&& 1 = 1 ↔ a.toNat % 2 = 1 := by
  rw [← UInt8.toNat_inj,UInt8.toNat_and]
  change a.toNat &&& 1 = 1 ↔ _
  rw [Nat.and_one_is_mod]

theorem highBit_exact (a : UInt8) : a >>> 7 = 1 ↔ 128 ≤ a.toNat := by
  have below := a.toNat_lt
  have shifted : (a >>> 7).toNat = a.toNat / 128 := by
    rw [UInt8.toNat_shiftRight]
    exact Nat.shiftRight_eq_div_pow a.toNat 7
  rw [← UInt8.toNat_inj,shifted]
  change a.toNat / 128 = 1 ↔ _
  omega

/-- Bytes are calculated with as the numbers that they stand for. -/
theorem arithmetic_calculation {form : String} {exact : Int → Int → Int × Bool}
    (listed : (form,exact) ∈ arithmetic) :
    ∃ calculation : Calculation, calculation.form = form ∧ ∀ a b : UInt8,
      ((calculation.result a b).toNat : Int) = (exact a.toNat b.toNat).1 ∧
        calculation.flag? a b = some (exact a.toNat b.toNat).2 := by
  simp only [arithmetic,List.mem_cons,List.not_mem_nil,or_false,Prod.mk.injEq] at listed
  rcases listed with ⟨rfl,rfl⟩ | ⟨rfl,rfl⟩ | ⟨rfl,rfl⟩ | ⟨rfl,rfl⟩ | ⟨rfl,rfl⟩
  · refine ⟨.add,rfl,fun a b => ⟨?_,?_⟩⟩
    · simp [Calculation.result]
    · simp only [Calculation.flag?,Option.some.injEq,overflows_exact,decide_eq_decide]
      omega
  · refine ⟨.subtract,rfl,fun a b => ⟨sub_exact a b,?_⟩⟩
    simp only [Calculation.flag?,Option.some.injEq,decide_eq_decide,gt_iff_lt,UInt8.lt_iff_toNat_lt]
    omega
  · refine ⟨.shiftRight,rfl,fun a b => ⟨?_,?_⟩⟩
    · simp only [Calculation.result,shiftRight_exact]
      omega
    · simp only [Calculation.flag?,Option.some.injEq,decide_eq_decide,lowBit_exact]
      omega
  · refine ⟨.subtractFrom,rfl,fun a b => ⟨sub_exact b a,?_⟩⟩
    simp only [Calculation.flag?,Option.some.injEq,decide_eq_decide,gt_iff_lt,UInt8.lt_iff_toNat_lt]
    omega
  · refine ⟨.shiftLeft,rfl,fun a b => ⟨?_,?_⟩⟩
    · simp only [Calculation.result,shiftLeft_exact]
      omega
    · simp only [Calculation.flag?,Option.some.injEq,decide_eq_decide,highBit_exact]
      omega

theorem flag_value (raised : Bool) :
    (((if raised then 1 else 0) : UInt8).toNat : Int) = if raised then 1 else 0 := by
  cases raised <;> rfl

/-- The flag wins over the result, and all other registers stay. -/
theorem Registers.get_calculate {registers : Registers} {calculation : Calculation} {x y : Register}
    {raised : Bool} (flag : calculation.flag? (registers.get x) (registers.get y) = some raised)
    (z : Register) :
    (registers.calculate calculation x y).get z =
      if z = flagRegister then if raised then 1 else 0
      else if z = x then calculation.result (registers.get x) (registers.get y)
      else registers.get z := by
  simp only [calculate,flag,setFlag,get_set,@eq_comm _ z]

namespace Machine
variable {machine : Machine} {word : UInt16} {form : String} {exact : Int → Int → Int × Bool}

def value (machine : Machine) (x : Register) : Int := (machine.registers.get x).toNat

theorem value_range (machine : Machine) (x : Register) : 0 ≤ machine.value x ∧ machine.value x < 256 := by
  have below := (machine.registers.get x).toNat_lt
  unfold value
  omega

structure Calculated (before after : Machine) (x : Register) (exact : Int × Bool) : Prop where
  flag : after.value flagRegister = if exact.2 then 1 else 0
  result : x ≠ flagRegister → after.value x = exact.1
  others : ∀ part : Part, part ≠ .general x → part ≠ .general flagRegister → part.Same before after

theorem execute_calculation (running : machine.activity = .running)
    (listed : (form,exact) ∈ arithmetic) (fits : OfForm form word) :
    (machine.execute word).answer = .ok .running ∧
      machine.Calculated (machine.execute word).machine (operand word)
        (exact (machine.value (operand word)) (machine.value (secondOperand word))) := by
  obtain ⟨calculation,rfl,meaning⟩ := arithmetic_calculation listed
  obtain ⟨result,raised⟩ := meaning (machine.registers.get (operand word))
    (machine.registers.get (secondOperand word))
  obtain ⟨answer,left⟩ := execute_runs running (Instruction.decode_calculate fits) rfl running
  have written := Registers.get_calculate raised
  rw [left]
  refine ⟨answer,?_,fun other => ?_,fun part target flag => ?_⟩
  · have top := (written flagRegister).trans (if_pos rfl)
    simp only [value,withRegisters,top]
    exact flag_value _
  · have place := (written (operand word)).trans (if_neg other)
    rw [if_pos rfl] at place
    simp only [value,withRegisters,place]
    exact result
  · refine Instruction.same_calculate ?_
    rintro (same | ⟨_,same⟩)
    · exact target same
    · exact flag same

theorem execute_addByte (running : machine.activity = .running) (fits : OfForm "7xkk" word) :
    (machine.execute word).answer = .ok .running ∧ (machine.execute word).machine =
      machine.withRegisters fun registers =>
        registers.set (operand word) (registers.get (operand word) + word.toUInt8) :=
  execute_runs running (Instruction.decode_addByte fits) rfl running

section Sums
variable {x y : Register} {after : Machine} (kept : x ≠ flagRegister)
include kept

theorem Calculated.sum
    (added : machine.Calculated after x
      ((machine.value x + machine.value y) % 256,255 < machine.value x + machine.value y)) :
    256 * after.value flagRegister + after.value x = machine.value x + machine.value y := by
  have first := machine.value_range x
  have second := machine.value_range y
  have flag := added.flag
  rw [added.result kept]
  simp only [decide_eq_true_eq] at flag
  split at flag <;> omega

theorem Calculated.halves
    (shifted : machine.Calculated after x (machine.value x / 2,machine.value x % 2 = 1)) :
    2 * after.value x + after.value flagRegister = machine.value x := by
  have flag := shifted.flag
  rw [shifted.result kept]
  simp only [decide_eq_true_eq] at flag
  split at flag <;> omega

theorem Calculated.double
    (shifted : machine.Calculated after x (2 * machine.value x % 256,128 ≤ machine.value x)) :
    256 * after.value flagRegister + after.value x = 2 * machine.value x := by
  have range := machine.value_range x
  have flag := shifted.flag
  rw [shifted.result kept]
  simp only [decide_eq_true_eq] at flag
  split at flag <;> omega

/-- What has been added can be subtracted again, unless the flag has taken its place. -/
theorem Calculated.back {last : Machine} (apart : x ≠ y) (spared : y ≠ flagRegister) {sum difference : Bool}
    (added : machine.Calculated after x ((machine.value x + machine.value y) % 256,sum))
    (subtracted : after.Calculated last x ((after.value x - after.value y) % 256,difference)) :
    last.registers.get x = machine.registers.get x := by
  have range := machine.value_range x
  have held : Part.Same (.general y) machine after := added.others _ (by simp [apart.symm]) (by simp [spared])
  have second : after.value y = machine.value y := congrArg (fun byte : UInt8 => (byte.toNat : Int)) held
  have result := subtracted.result kept
  rw [added.result kept,second] at result
  have same : last.value x = machine.value x := by omega
  exact UInt8.toNat_inj.mp (Int.ofNat_inj.mp same)

end Sums

/-- A calculation that sets the flag gives the result and the flag of its numbers, whichever of its
registers are the same, the flag register among them. Where the result is kept, it makes up the exact
number together with the flag. The addition of a byte sets no flag. -/
theorem arithmetic_exact (machine : Machine) (running : machine.activity = .running) (word : UInt16) :
    let x := operand word
    let y := secondOperand word
    let after := (machine.execute word).machine
    (∀ form exact, (form,exact) ∈ arithmetic → OfForm form word →
      (machine.execute word).answer = .ok .running ∧
        machine.Calculated after x (exact (machine.value x) (machine.value y))) ∧
    (x ≠ flagRegister →
      (OfForm "8xy4" word →
        256 * after.value flagRegister + after.value x = machine.value x + machine.value y) ∧
      (OfForm "8xy6" word → 2 * after.value x + after.value flagRegister = machine.value x) ∧
      (OfForm "8xyE" word → 256 * after.value flagRegister + after.value x = 2 * machine.value x) ∧
      (y ≠ flagRegister → x ≠ y → OfForm "8xy4" word →
        ∀ back, OfForm "8xy5" back → operand back = x → secondOperand back = y →
          (after.execute back).machine.registers.get x = machine.registers.get x)) ∧
    (OfForm "7xkk" word →
      (machine.execute word).answer = .ok .running ∧
      after.value x = (machine.value x + (word.toNat % 256 : Nat)) % 256 ∧
      ∀ part : Part, part ≠ .general x → part.Same machine after) := by
  intro x y after
  have calculated {form : String} {exact : Int → Int → Int × Bool} (listed : (form,exact) ∈ arithmetic)
      (fits : OfForm form word) := execute_calculation running listed fits
  refine ⟨fun form exact listed fits => calculated listed fits,fun kept => ⟨fun fits => ?_,fun fits => ?_,
    fun fits => ?_,fun spared apart fits back backward target source => ?_⟩,fun fits => ?_⟩
  · exact (calculated (List.Mem.head _) fits).2.sum kept
  · exact (calculated (.tail _ (.tail _ (List.Mem.head _))) fits).2.halves kept
  · exact (calculated (.tail _ (.tail _ (.tail _ (.tail _ (List.Mem.head _))))) fits).2.double kept
  · have added := calculated (List.Mem.head _) fits
    have runs : after.activity = .running := by
      have same : after.activity = machine.activity := added.2.others .activity (by simp) (by simp)
      exact same.trans running
    have subtracted := execute_calculation runs (.tail _ (List.Mem.head _)) backward
    rw [target,source] at subtracted
    exact added.2.back kept apart spared subtracted.2
  · obtain ⟨answer,left⟩ := execute_addByte running fits
    have low : word.toUInt8.toNat = word.toNat % 256 := UInt16.toNat_toUInt8 word
    refine ⟨answer,?_,fun part other => ?_⟩
    · simp only [after,value,left,withRegisters,Registers.get_set,if_true,x,UInt8.toNat_add,low]
      omega
    · simp only [after,left]
      exact Part.same_set _ other

/-- An addition into the flag register leaves the carry there, and one that takes the flag register for
its second number adds what it held before. -/
theorem arithmetic_exact_flag :
    let machine := (fresh {} (Vector.replicate 8 0)).after [.execute 0x60C8,.execute 0x6F64]
    (machine.execute 0x8F04).machine.value flagRegister = 1 ∧
      256 * (machine.execute 0x80F4).machine.value flagRegister + (machine.execute 0x80F4).machine.value 0 =
        300 := by
  intro machine
  have running : machine.activity = .running := by decide +kernel
  have first : machine.value 0 = 200 := by decide +kernel
  have second : machine.value flagRegister = 100 := by decide +kernel
  obtain ⟨lost,_,_⟩ := arithmetic_exact machine running 0x8F04
  obtain ⟨_,kept,_⟩ := arithmetic_exact machine running 0x80F4
  obtain ⟨_,calculated⟩ := lost "8xy4" _ (List.Mem.head _) (by decide)
  obtain ⟨sum,_⟩ := kept (by decide)
  have exactly := sum (by decide)
  have into : operand 0x8F04 = flagRegister ∧ secondOperand 0x8F04 = 0 := by decide
  have taken : operand 0x80F4 = 0 ∧ secondOperand 0x80F4 = flagRegister := by decide
  constructor
  · rw [calculated.flag,into.1,into.2,first,second]
    rfl
  · rw [taken.1,taken.2,first,second] at exactly
    exact exactly

end Machine

end Chip8
