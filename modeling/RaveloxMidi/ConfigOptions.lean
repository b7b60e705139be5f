import RaveloxMidi.ConfigMeaning
import RaveloxMidi.PrintedNumber
import RaveloxMidi.SaturatingScan

/-!
# Options with several values

The values of such an option have keys that end in a number, from zero on. An iterator
counts up to the largest number that the memory for a key has room for, and the loops
over the values have no other end than a key that is not set.
-/
namespace RaveloxMidi
open ByteMemory CText KeyedTable SaturatingScan

/-- `raveloxmidi_config_iter_t` -/
structure RaveloxmidiConfigIter where
  keyPrefix : List UInt8
  index : ℕ
  deriving Repr, DecidableEq

def maxIterIndex : ℕ := 10000

def configStringGet (config : KvTable) (key : List UInt8) : Option (List UInt8) :=
  kvGetValue config key

/-- A value without a character does not count. -/
def configIsSet (config : KvTable) (key : List UInt8) : Bool :=
  match kvGetValue config key with
  | none => false
  | some value => 0 < value.length

def configIterCreate (keyPrefix : List UInt8) : RaveloxmidiConfigIter := ⟨keyPrefix, 0⟩

def configIterNext (iter : RaveloxmidiConfigIter) : RaveloxmidiConfigIter :=
  if iter.index < maxIterIndex then { iter with index := iter.index + 1 } else iter

/-- What is printed for a key. -/
def indexedKey (keyPrefix : List UInt8) (index : ℕ) : List UInt8 :=
  keyPrefix ++ ascii "." ++ decimal index

/-- The key is printed into seven octets more than the prefix has, and read from there. -/
def configMakeKey (keyPrefix : List UInt8) (index : ℕ) : Except Fault (List UInt8) := do
  let key ← store (List.replicate (keyPrefix.length + 7) 0) 0 (indexedKey keyPrefix index ++ [0])
  textAt key

def configIterStringGet (config : KvTable) (iter : RaveloxmidiConfigIter) :
    Except Fault (Option (List UInt8)) := do
  let key ← configMakeKey iter.keyPrefix iter.index
  return configStringGet config key

def configIterIsSet (config : KvTable) (iter : RaveloxmidiConfigIter) : Except Fault Bool := do
  let key ← configMakeKey iter.keyPrefix iter.index
  return configIsSet config key

/-- The devices that the loop over an option opens in so many rounds, and whether it has
ended. -/
def alsaInitLoop (config : KvTable) :
    ℕ → RaveloxmidiConfigIter → Except Fault (List (List UInt8) × Bool)
  | 0, _ => .ok ([], false)
  | rounds + 1, iter => do
    if ¬ (← configIterIsSet config iter) then return ([], true)
    let fullName ← configIterStringGet config iter
    let later ← alsaInitLoop config rounds (configIterNext iter)
    return (fullName.toList ++ later.1, later.2)

/-- The devices of an option: the one of its literal name, and then the numbered ones. -/
def alsaInitDevices (config : KvTable) (rounds : ℕ) :
    Option (List UInt8) → Except Fault (List (List UInt8) × Bool)
  | none => .ok ([], true)
  | some name => do
    let literal := if configIsSet config name then (configStringGet config name).toList else []
    let indexed ← alsaInitLoop config rounds (configIterCreate name)
    return (literal ++ indexed.1, indexed.2)

/-- `raveloxmidi_alsa_add_input` or `raveloxmidi_alsa_add_output` for a device. -/
inductive AlsaOpening where
  | input (deviceName : List UInt8)
  | output (deviceName : List UInt8)
  deriving Repr, DecidableEq

/-- `raveloxmidi_alsa_init` with so many rounds for each loop: the devices it opens, and
whether it has returned. -/
def raveloxmidiAlsaInit (config : KvTable) (rounds : ℕ)
    (inputName outputName : Option (List UInt8)) : Except Fault (List AlsaOpening × Bool) := do
  let inputs ← alsaInitDevices config rounds inputName
  if ¬ inputs.2 then return (inputs.1.map .input, false)
  let outputs ← alsaInitDevices config rounds outputName
  return (inputs.1.map .input ++ outputs.1.map .output, outputs.2)

/-- The loop over an option stays inside the memory for its keys however long it runs, and
ends after the values in front of the first key that is not set, each visited once. -/
structure Enumerates (config : KvTable) (keyPrefix : List UInt8) : Prop where
  inside : ∀ rounds, ∃ visited,
    alsaInitLoop config rounds (configIterCreate keyPrefix) = .ok visited
  visits : ∃ k rounds values,
    (∀ i < k, configIsSet config (indexedKey keyPrefix i) = true) ∧
    configIsSet config (indexedKey keyPrefix k) = false ∧
    alsaInitLoop config rounds (configIterCreate keyPrefix) = .ok (values, true) ∧
    values.map some = (List.range k).map fun i => configStringGet config (indexedKey keyPrefix i)

/-- The devices of an option, as the numbers in front of the first gap give them. -/
def DevicesOf (config : KvTable) : Option (List UInt8) → List (List UInt8) → Prop
  | none, devices => devices = []
  | some name, devices => ∃ k, (∀ i < k, configIsSet config (indexedKey name i) = true) ∧
    configIsSet config (indexedKey name k) = false ∧
    devices = (if configIsSet config name then (configStringGet config name).toList else []) ++
      (List.range k).filterMap fun i => configStringGet config (indexedKey name i)

/-- A key of the option is not set that the iterator comes to. -/
def HasGap (config : KvTable) (keyPrefix : List UInt8) : Prop :=
  ∃ index ≤ maxIterIndex, configIsSet config (indexedKey keyPrefix index) = false

section Loop
variable {config : KvTable} {keyPrefix : List UInt8}

/-- The memory for a key has room for every index that the iterator takes. -/
theorem makeKey_eq (hzeros : ∀ b ∈ keyPrefix, b ≠ 0) {index : ℕ} (hindex : index ≤ maxIterIndex) :
    configMakeKey keyPrefix index = .ok (indexedKey keyPrefix index) := by
  have hdigits : (decimal index).length ≤ 5 :=
    decimal_length_le (by omega) (by rw [maxIterIndex] at hindex; omega)
  have htext : ∀ b ∈ indexedKey keyPrefix index, b ≠ 0 := by
    refine List.forall_mem_append.mpr ⟨List.forall_mem_append.mpr ⟨hzeros, by decide +kernel⟩, ?_⟩
    rintro b hb rfl
    exact absurd (decimal_isDecimal index 0 hb) (by decide)
  have hlength : (indexedKey keyPrefix index ++ [0]).length ≤ keyPrefix.length + 7 := by
    simp [indexedKey, ascii]
    omega
  rw [configMakeKey, store_ok (by simpa using hlength), List.take_zero, List.nil_append,
    List.append_assoc, List.singleton_append]
  exact textAt_eq htext

theorem isSet_some {key : List UInt8} (hset : configIsSet config key = true) :
    ∃ value, configStringGet config key = some value := by
  rw [configIsSet] at hset
  rw [configStringGet]
  cases hvalue : kvGetValue config key with
  | none =>
    rw [hvalue] at hset
    cases hset
  | some value => exact ⟨value, rfl⟩

/-- The loop is the one over the indices, with their values. -/
theorem initLoop_eq (hzeros : ∀ b ∈ keyPrefix, b ≠ 0) (rounds : ℕ) {index : ℕ}
    (hindex : index ≤ maxIterIndex) :
    alsaInitLoop config rounds ⟨keyPrefix, index⟩ =
      .ok ((scan (fun i => configIsSet config (indexedKey keyPrefix i)) maxIterIndex rounds
          index).1.filterMap fun i => configStringGet config (indexedKey keyPrefix i),
        (scan (fun i => configIsSet config (indexedKey keyPrefix i)) maxIterIndex rounds
          index).2) := by
  induction rounds generalizing index with
  | zero => rfl
  | succ rounds ih =>
    have hkey := makeKey_eq hzeros hindex
    have hnext : configIterNext ⟨keyPrefix, index⟩ = ⟨keyPrefix, next maxIterIndex index⟩ := by
      rw [configIterNext, next]
      split_ifs <;> rfl
    have hle : next maxIterIndex index ≤ maxIterIndex := by
      rw [next]
      split_ifs <;> omega
    rw [alsaInitLoop, scan, hnext, ih hle]
    simp only [configIterIsSet, configIterStringGet, hkey, bind, Except.bind, pure, Except.pure]
    by_cases hset : configIsSet config (indexedKey keyPrefix index) = true
    · obtain ⟨value, hvalue⟩ := isSet_some hset
      simp [hset, hvalue]
    · simp [hset]

/-- Where every value is there, none is left out. -/
theorem values_some {indices : List ℕ}
    (hset : ∀ i ∈ indices, configIsSet config (indexedKey keyPrefix i) = true) :
    (indices.filterMap fun i => configStringGet config (indexedKey keyPrefix i)).map some =
      indices.map fun i => configStringGet config (indexedKey keyPrefix i) := by
  induction indices with
  | nil => rfl
  | cons i indices ih =>
    obtain ⟨hfirst, hrest⟩ := List.forall_mem_cons.mp hset
    obtain ⟨value, hvalue⟩ := isSet_some hfirst
    simp only [List.filterMap_cons, hvalue, List.map_cons, ih hrest]

/-- The loop over an option does what it is for if some key is not set that the iterator
comes to; else it never ends. -/
theorem enumerates_iff (hzeros : ∀ b ∈ keyPrefix, b ≠ 0) :
    Enumerates config keyPrefix ↔ HasGap config keyPrefix := by
  have hloop := fun rounds => @initLoop_eq config keyPrefix hzeros rounds 0 (Nat.zero_le _)
  constructor
  · rintro ⟨-, k, rounds, values, -, -, hended, -⟩
    rw [configIterCreate, hloop rounds] at hended
    have hscan := congrArg Prod.snd (Except.ok.inj hended)
    exact scan_ends_iff.mp ⟨rounds, hscan⟩
  · intro hunset
    obtain ⟨k, hle, hset, hunset⟩ := exists_first hunset
    refine ⟨fun rounds => ⟨_, hloop rounds⟩, k, k + 1, _, hset, hunset, ?_,
      values_some fun i hi => hset i (List.mem_range.mp hi)⟩
    rw [configIterCreate, hloop (k + 1), scan_start hset hunset hle (Nat.lt_succ_self k)]

/-- As many rounds as there are numbers are enough for an option with a gap. -/
theorem initDevices_ok {name : Option (List UInt8)} (hname : ∀ n ∈ name, ∀ b ∈ n, b ≠ 0)
    (hgap : ∀ n ∈ name, HasGap config n) : ∃ devices, DevicesOf config name devices ∧
      alsaInitDevices config (maxIterIndex + 1) name = .ok (devices, true) := by
  cases name with
  | none => exact ⟨[], rfl, rfl⟩
  | some name =>
    obtain ⟨k, hle, hset, hunset⟩ := exists_first (hgap name rfl)
    refine ⟨_, ⟨k, hset, hunset, rfl⟩, ?_⟩
    simp only [alsaInitDevices, configIterCreate, initLoop_eq (hname name rfl) _ (Nat.zero_le _),
      scan_start hset hunset hle (Nat.lt_succ_of_le hle), bind, Except.bind, pure, Except.pure]

/-- With a gap in both options the devices are opened, the inputs first, each once. -/
theorem alsaInit_opens {inputName outputName : Option (List UInt8)}
    (hinput : ∀ n ∈ inputName, (∀ b ∈ n, b ≠ 0) ∧ HasGap config n)
    (houtput : ∀ n ∈ outputName, (∀ b ∈ n, b ≠ 0) ∧ HasGap config n) :
    ∃ inputs outputs, DevicesOf config inputName inputs ∧ DevicesOf config outputName outputs ∧
      raveloxmidiAlsaInit config (maxIterIndex + 1) inputName outputName =
        .ok (inputs.map .input ++ outputs.map .output, true) := by
  obtain ⟨inputs, hinputs, hopenedInputs⟩ :=
    initDevices_ok (fun n hn => (hinput n hn).1) fun n hn => (hinput n hn).2
  obtain ⟨outputs, houtputs, hopenedOutputs⟩ :=
    initDevices_ok (fun n hn => (houtput n hn).1) fun n hn => (houtput n hn).2
  refine ⟨inputs, outputs, hinputs, houtputs, ?_⟩
  simp only [raveloxmidiAlsaInit, hopenedInputs, hopenedOutputs, bind, Except.bind, pure,
    Except.pure, not_true, if_false]

end Loop

/-- Two devices in front of a gap. -/
def gapConfig : KvTable :=
  configAddItems Table.empty [(indexedKey (ascii "a") 0, ascii "x"),
    (indexedKey (ascii "a") 1, ascii "y"), (indexedKey (ascii "a") 3, ascii "z")]

theorem enumerates_iff_gap : Enumerates gapConfig (ascii "a") :=
  (enumerates_iff (by decide +kernel)).mpr ⟨2, by decide, by decide +kernel⟩

/-- A device for every number that the iterator takes. -/
def fullConfig : KvTable :=
  configAddItems Table.empty ((List.range (maxIterIndex + 1)).map fun i =>
    (indexedKey (ascii "alsa.input_device") i, ascii "hw:1"))

theorem fullConfig_set {i : ℕ} (hi : i ≤ maxIterIndex) :
    configIsSet fullConfig (indexedKey (ascii "alsa.input_device") i) = true := by
  obtain ⟨items, hitems⟩ : ∃ items, items = (List.range (maxIterIndex + 1)).map fun i =>
    (indexedKey (ascii "alsa.input_device") i, ascii "hw:1") := ⟨_, rfl⟩
  have hkeys : ∀ item ∈ items, item.1 ≠ [] ∧ item.2 = ascii "hw:1" := by
    intro item hitem
    rw [hitems] at hitem
    obtain ⟨j, -, rfl⟩ := List.mem_map.mp hitem
    exact ⟨by simp [indexedKey, decimal_ne_nil], rfl⟩
  have hmem : (indexedKey (ascii "alsa.input_device") i, ascii "hw:1") ∈ items.reverse := by
    rw [List.mem_reverse, hitems]
    exact List.mem_map.mpr ⟨i, List.mem_range.mpr (by omega), rfl⟩
  have hfound : (items.reverse.find? fun item => item.1.map lowerCase =
      (indexedKey (ascii "alsa.input_device") i).map lowerCase).isSome = true :=
    List.find?_isSome.mpr ⟨_, hmem, by simp⟩
  obtain ⟨item, hitem⟩ := Option.isSome_iff_exists.mp hfound
  have hvalue := (hkeys item (List.mem_reverse.mp (List.mem_of_find?_eq_some hitem))).2
  rw [configIsSet, fullConfig, ← hitems, addItems_value _ fun item h => (hkeys item h).1, hitem]
  simp only [hvalue]
  decide

/-- The last of them is opened again and again. -/
theorem full_option_never_ends :
    (∀ rounds, ∃ visited, alsaInitLoop fullConfig rounds
      (configIterCreate (ascii "alsa.input_device")) = .ok (visited, false)) ∧
    ¬ Enumerates fullConfig (ascii "alsa.input_device") := by
  have hzeros : ∀ b ∈ ascii "alsa.input_device", b ≠ 0 := by decide +kernel
  have hstuck : ∀ rounds, ∃ visited, alsaInitLoop fullConfig rounds
      (configIterCreate (ascii "alsa.input_device")) = .ok (visited, false) := by
    intro rounds
    rw [configIterCreate, initLoop_eq hzeros rounds (Nat.zero_le _),
      scan_stuck (fun i hi => fullConfig_set hi) rounds (Nat.zero_le _)]
    exact ⟨_, rfl⟩
  refine ⟨hstuck, ?_⟩
  rintro ⟨-, k, rounds, values, -, -, hended, -⟩
  obtain ⟨visited, hvisited⟩ := hstuck rounds
  rw [hvisited] at hended
  cases hended

end RaveloxMidi
