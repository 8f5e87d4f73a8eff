import TctiUefi.Lib.Memory
import TctiUefi.Sapi.Station

namespace TctiUefi.Sapi.CapsFixed

open TctiUefi.Pcr Client

def tpm2CapTpmProperties : UInt32 := 6
def tpm2PtFixed : UInt32 := 0x100
def tpm2PtModes : UInt32 := tpm2PtFixed + 45
def tpm2MaxTpmProperties : Nat := 127
def tpmaModesFips140_2 : UInt32 := 0x1
def tpmaModesReserved1Mask : UInt32 := 0xfffffffe

inductive Shape
  | hex
  | decimal
  | hundredths
  | chars (raw : String)
  | modes
  deriving DecidableEq

def Shape.format : Shape → String
  | .hex => ":\n  value: 0x%X\n"
  | .decimal => ":\n  value: %d\n"
  | .hundredths => ":\n  value: %.2f\n"
  | .chars raw => ":\n  raw: " ++ raw ++ "\n" ++ "  value: \"%s\"\n"
  | .modes => ":\n  raw: 0x%X\n"

structure Case where
  property : UInt32
  name : String
  shape : Shape
  deriving DecidableEq

def Case.format (c : Case) : String := c.name ++ c.shape.format

def Case.of (n : UInt32) (name : String) (shape : Shape) : Case := ⟨tpm2PtFixed + n, name, shape⟩

def fixedCases : List Case :=
  [.of 0 "TPM2_PT_FAMILY_INDICATOR" (.chars "0x08%x"),
    .of 1 "TPM2_PT_LEVEL" .decimal,
    .of 2 "TPM2_PT_REVISION" .hundredths,
    .of 3 "TPM2_PT_DAY_OF_YEAR" .hex,
    .of 4 "TPM2_PT_YEAR" .hex,
    .of 5 "TPM2_PT_MANUFACTURER" (.chars "0x%X"),
    .of 6 "TPM2_PT_VENDOR_STRING_1" (.chars "0x%X"),
    .of 7 "TPM2_PT_VENDOR_STRING_2" (.chars "0x%X"),
    .of 8 "TPM2_PT_VENDOR_STRING_3" (.chars "0x%X"),
    .of 9 "TPM2_PT_VENDOR_STRING_4" (.chars "0x%X"),
    .of 10 "TPM2_PT_VENDOR_TPM_TYPE" .hex,
    .of 11 "TPM2_PT_FIRMWARE_VERSION_1" .hex,
    .of 12 "TPM2_PT_FIRMWARE_VERSION_2" .hex,
    .of 13 "TPM2_PT_INPUT_BUFFER" .hex,
    .of 14 "TPM2_PT_TPM2_HR_TRANSIENT_MIN" .hex,
    .of 15 "TPM2_PT_TPM2_HR_PERSISTENT_MIN" .hex,
    .of 16 "TPM2_PT_HR_LOADED_MIN" .hex,
    .of 17 "TPM2_PT_ACTIVE_SESSIONS_MAX" .hex,
    .of 18 "TPM2_PT_PCR_COUNT" .hex,
    .of 19 "TPM2_PT_PCR_SELECT_MIN" .hex,
    .of 20 "TPM2_PT_CONTEXT_GAP_MAX" .hex,
    .of 22 "TPM2_PT_NV_COUNTERS_MAX" .hex,
    .of 23 "TPM2_PT_NV_INDEX_MAX" .hex,
    .of 24 "TPM2_PT_MEMORY" .hex,
    .of 25 "TPM2_PT_CLOCK_UPDATE" .hex,
    .of 26 "TPM2_PT_CONTEXT_HASH" .hex,
    .of 27 "TPM2_PT_CONTEXT_SYM" .hex,
    .of 28 "TPM2_PT_CONTEXT_SYM_SIZE" .hex,
    .of 29 "TPM2_PT_ORDERLY_COUNT" .hex,
    .of 30 "TPM2_PT_MAX_COMMAND_SIZE" .hex,
    .of 31 "TPM2_PT_MAX_RESPONSE_SIZE" .hex,
    .of 32 "TPM2_PT_MAX_DIGEST" .hex,
    .of 33 "TPM2_PT_MAX_OBJECT_CONTEXT" .hex,
    .of 34 "TPM2_PT_MAX_SESSION_CONTEXT" .hex,
    .of 35 "TPM2_PT_PS_FAMILY_INDICATOR" .hex,
    .of 36 "TPM2_PT_PS_LEVEL" .hex,
    .of 37 "TPM2_PT_PS_REVISION" .hex,
    .of 38 "TPM2_PT_PS_DAY_OF_YEAR" .hex,
    .of 39 "TPM2_PT_PS_YEAR" .hex,
    .of 40 "TPM2_PT_SPLIT_MAX" .hex,
    .of 41 "TPM2_PT_TOTAL_COMMANDS" .hex,
    .of 42 "TPM2_PT_LIBRARY_COMMANDS" .hex,
    .of 43 "TPM2_PT_VENDOR_COMMANDS" .hex,
    .of 44 "TPM2_PT_NV_BUFFER_MAX" .hex,
    .of 45 "TPM2_PT_MODES" .modes]

/-- A `char` that is assigned to a `wchar_t` of 16 bits; it is signed on the x86 machines. -/
def toWchar (A : Arch) (c : UInt8) : UInt16 :=
  match A with
  | .aarch64 => c.toUInt16
  | .ia32 | .x86_64 => c.toInt8.toInt16.toUInt16

/-- What `%s` prints: the characters up to the first that is zero. -/
def wideString (buf : List UInt16) : String :=
  String.ofList ((buf.takeWhile (· ≠ 0)).map fun c => Char.ofNat c.toNat)

def getUint32AsWchars (A : Arch) (value : UInt32) : String :=
  let bytes := Buffer.write (fun _ => 0) (toLE 4 value.toNat)
  let uintchars := bytes.loadBE 0 4
  wideString ((toLE 4 uintchars).map (toWchar A))

def printTpmaModes (modes : UInt32) : Trace Effect PUnit := do
  printf "TPM2_PT_MODES:\n  raw: 0x%X\n" [.int modes.toNat]
  if modes &&& tpmaModesFips140_2 ≠ 0 then
    printf "  value: TPMA_MODES_FIPS_140_2\n" []
  if modes &&& tpmaModesReserved1Mask ≠ 0 then
    printf "  value: TPMA_MODES_RESERVED1 (these bits shouldn't be set)\n" []

section Dump

-- The argument of the conversion `%.2f`, which is `(float) value / 100`.
variable (A : Arch) (hundredth : UInt32 → PrintArg)

def dumpCase (c : Case) (value : UInt32) : Trace Effect PUnit :=
  match c.shape with
  | .hex | .decimal => printf c.format [.int value.toNat]
  | .hundredths => printf c.format [hundredth value]
  | .chars _ => printf c.format [.int value.toNat, .str (getUint32AsWchars A value)]
  | .modes => printTpmaModes value

def dumpProperty (p : TpmsTaggedProperty) : Trace Effect PUnit :=
  match fixedCases.find? fun c => c.property = p.property with
  | some c => dumpCase A hundredth c p.value
  | none => printf "Unknown property: 0x%x\n" [.int p.property.toNat]

def dumpTpmPropertiesFixed (properties : Nat → TpmsTaggedProperty) (count : Nat) :
    Trace Effect PUnit :=
  forM (List.range count) fun i => dumpProperty A hundredth (properties i)

def propStr (val : UInt8) : String := if val ≠ 0 then "true" else "false"

def fixedRequest : SysCommand :=
  .getCapability tpm2CapTpmProperties tpm2PtFixed (tpm2PtModes - tpm2PtFixed) 0
    ⟨0, 0, fun _ => ⟨0, 0⟩⟩

def capsFixed : Tool PUnit := do
  let reply ← .call fixedRequest
  if reply.rc ≠ 0 then
    .say (.print ⟨"Failed to Tss2_Sys_GetCapability: 0x%x\n", [.int reply.rc.toNat]⟩)
  -- also after a failure
  .say (.print ⟨"Tss2_Sys_GetCapability returned TSS2_RC_SUCCESS\n", []⟩)
  .say (.print ⟨"Tss2_Sys_Getcapability has more data: %s\n", [.str (propStr reply.moreData)]⟩)
  .say (.print ⟨"dump_tpm_properties_fixed\n", []⟩)
  let tpmProperties := reply.capabilityData.tpmProperties
  .ofTrace (dumpTpmPropertiesFixed A hundredth tpmProperties.tpmProperty tpmProperties.count.toNat)

end Dump

def efiMain {A : Arch} {T : Tss A} (hundredth : UInt32 → PrintArg) (L : SapiLibrary T τ)
    (P : Platform T) (st : Station T τ) : Trace (Effect ⊕ SysCall) (EfiStatus A × Station T τ) :=
  initThen id P st (efiAborted A) (session L (capsFixed A hundredth) fun _ => efiSuccess A)

inductive Line
  | failed (rc : Nat)
  | more (val : String)
  | property (number : Nat) (value : Option Nat) (text : Option String)
  deriving DecidableEq

def readPrint (p : Print) : Option Line :=
  match fixedCases.find? fun c => c.format = p.format with
  | some c =>
    match c.shape, p.args with
    | .chars _, [.int value, .str text] =>
      some (.property c.property.toNat (some value) (some text))
    | .hundredths, _ => some (.property c.property.toNat none none)
    | _, [.int value] => some (.property c.property.toNat (some value) none)
    | _, _ => none
  | none =>
    match p.args with
    | [.int n] =>
      if p.format = "Unknown property: 0x%x\n" then some (.property n none none)
      else if p.format = "Failed to Tss2_Sys_GetCapability: 0x%x\n" then some (.failed n)
      else none
    | [.str val] =>
      if p.format = "Tss2_Sys_Getcapability has more data: %s\n" then some (.more val) else none
    | _ => none

def readEffect : Effect → Option Line
  | .print p => readPrint p
  | _ => none

def text (A : Arch) (value : UInt32) : String :=
  wideString ([24, 16, 8, 0].map fun n : UInt32 => toWchar A (value >>> n).toUInt8)

def shown (A : Arch) (p : TpmsTaggedProperty) : Line :=
  match fixedCases.find? fun c => c.property = p.property with
  | some c =>
    match c.shape with
    | .chars _ => .property p.property.toNat (some p.value.toNat) (some (text A p.value))
    | .hundredths => .property p.property.toNat none none
    | _ => .property p.property.toNat (some p.value.toNat) none
  | none => .property p.property.toNat none none

def report (A : Arch) (reply : SysReply) : List Line :=
  (if reply.rc ≠ 0 then [.failed reply.rc.toNat] else []) ++
    .more (propStr reply.moreData) :: reply.capabilityData.tpmProperties.list.map (shown A)

theorem find_format :
    ∀ c ∈ fixedCases, (fixedCases.find? fun d => d.format = c.format) = some c := by
  decide +kernel

theorem toLE_toNat (value : UInt32) : toLE 4 value.toNat =
    [0, 8, 16, 24].map fun n : UInt32 => (value >>> n).toUInt8 := by
  have hbyte (k : Nat) (n : UInt32) (hn : n.toNat % 32 = 8 * k) :
      UInt8.ofNat (value.toNat / 256 ^ k) = (value >>> n).toUInt8 := by
    apply UInt8.toNat_inj.mp
    rw [UInt8.toNat_ofNat', UInt32.toNat_toUInt8, UInt32.toNat_shiftRight, hn,
      Nat.shiftRight_eq_div_pow, Nat.pow_mul]
  simp only [toLE, List.map_cons, List.map_nil, Nat.div_div_eq_div_mul]
  rw [← hbyte 0 0 rfl, ← hbyte 1 8 rfl, ← hbyte 2 16 rfl, ← hbyte 3 24 rfl]
  simp

theorem getUint32AsWchars_eq (A : Arch) (value : UInt32) :
    getUint32AsWchars A value = text A value := by
  have hbytes : Buffer.bytes (fun i => Buffer.write (fun _ => 0) (toLE 4 value.toNat) (0 + i)) 4 =
      toLE 4 value.toNat := by
    have h := Buffer.bytes_write (fun _ => 0) (toLE 4 value.toNat)
    rw [length_toLE] at h
    simpa only [Nat.zero_add] using h
  have hreverse : toLE 4 (ofLE (toLE 4 value.toNat).reverse) = (toLE 4 value.toNat).reverse := by
    have h := toLE_ofLE (toLE 4 value.toNat).reverse
    rwa [List.length_reverse, length_toLE] at h
  rw [getUint32AsWchars, Buffer.loadBE, hbytes, hreverse, toLE_toNat]
  rfl

theorem find_property {c : Case} {property : UInt32}
    (h : (fixedCases.find? fun c => c.property = property) = some c) :
    c ∈ fixedCases ∧ c.property = property :=
  ⟨List.mem_of_find?_eq_some h, by simpa using List.find?_some h⟩

theorem modes_format : ∀ c ∈ fixedCases, c.shape = .modes →
    c.format = "TPM2_PT_MODES:\n  raw: 0x%X\n" := by
  decide +kernel

theorem readPrint_of_mem {c : Case} (hc : c ∈ fixedCases) (args : List PrintArg) :
    readPrint ⟨c.format, args⟩ =
      match c.shape, args with
      | .chars _, [.int value, .str text] =>
        some (.property c.property.toNat (some value) (some text))
      | .hundredths, _ => some (.property c.property.toNat none none)
      | _, [.int value] => some (.property c.property.toNat (some value) none)
      | _, _ => none := by
  simp only [readPrint, find_format c hc]

def otherFormats : List String :=
  ["Unknown property: 0x%x\n", "Failed to Tss2_Sys_GetCapability: 0x%x\n",
    "Tss2_Sys_Getcapability has more data: %s\n"]

theorem find_other : ∀ format ∈ otherFormats,
    (fixedCases.find? fun c => c.format = format) = none := by
  decide +kernel

theorem readPrint_unknown (n : Nat) :
    readPrint ⟨"Unknown property: 0x%x\n", [.int n]⟩ = some (.property n none none) := by
  simp [readPrint, find_other "Unknown property: 0x%x\n" (by decide)]

theorem readEffect_failed (n : Nat) :
    readEffect (.print ⟨"Failed to Tss2_Sys_GetCapability: 0x%x\n", [.int n]⟩) =
      some (.failed n) := by
  simp [readEffect, readPrint, find_other "Failed to Tss2_Sys_GetCapability: 0x%x\n" (by decide)]

theorem readEffect_more (val : String) :
    readEffect (.print ⟨"Tss2_Sys_Getcapability has more data: %s\n", [.str val]⟩) =
      some (.more val) := by
  simp [readEffect, readPrint, find_other "Tss2_Sys_Getcapability has more data: %s\n" (by decide)]

theorem readEffect_plain {format : String} {args : List PrintArg}
    (h : (fixedCases.find? fun c => c.format = format) = none) (hother : format ∉ otherFormats) :
    readEffect (.print ⟨format, args⟩) = none := by
  obtain ⟨hunknown, hfailed, hmore⟩ : format ≠ "Unknown property: 0x%x\n" ∧
      format ≠ "Failed to Tss2_Sys_GetCapability: 0x%x\n" ∧
      format ≠ "Tss2_Sys_Getcapability has more data: %s\n" := by
    simpa [otherFormats] using hother
  simp only [readEffect, readPrint, h, hunknown, hfailed, hmore, if_false]
  split <;> rfl

theorem readEffect_dumpProperty (A : Arch) (hundredth : UInt32 → PrintArg)
    (p : TpmsTaggedProperty) :
    (dumpProperty A hundredth p).log.filterMap readEffect = [shown A p] := by
  rw [dumpProperty, shown]
  cases hfind : fixedCases.find? fun c => c.property = p.property with
  | none => simp [printf, readEffect, readPrint_unknown]
  | some c =>
    obtain ⟨hc, hproperty⟩ := find_property hfind
    cases hshape : c.shape with
    | hex => simp [dumpCase, hshape, printf, readEffect, readPrint_of_mem hc, hproperty]
    | decimal => simp [dumpCase, hshape, printf, readEffect, readPrint_of_mem hc, hproperty]
    | hundredths => simp [dumpCase, hshape, printf, readEffect, readPrint_of_mem hc, hproperty]
    | chars raw =>
      simp [dumpCase, hshape, printf, readEffect, readPrint_of_mem hc, hproperty,
        getUint32AsWchars_eq]
    | modes =>
      have hfips : readEffect (.print ⟨"  value: TPMA_MODES_FIPS_140_2\n", []⟩) = none :=
        readEffect_plain (by decide +kernel) (by decide)
      have hreserved : readEffect (.print
          ⟨"  value: TPMA_MODES_RESERVED1 (these bits shouldn't be set)\n", []⟩) = none :=
        readEffect_plain (by decide +kernel) (by decide)
      have hmodes : readEffect (.print ⟨"TPM2_PT_MODES:\n  raw: 0x%X\n", [.int p.value.toNat]⟩) =
          some (.property p.property.toNat (some p.value.toNat) none) := by
        rw [← modes_format c hc hshape, readEffect, readPrint_of_mem hc, hshape, hproperty]
      simp only [dumpCase, hshape, printTpmaModes, printf]
      split <;> split <;> simp [hfips, hreserved, hmodes]

theorem readEffect_dump (A : Arch) (hundredth : UInt32 → PrintArg)
    (properties : TpmlTaggedTpmProperty) :
    (dumpTpmPropertiesFixed A hundredth properties.tpmProperty properties.count.toNat).log.filterMap
      readEffect = properties.list.map (shown A) := by
  rw [dumpTpmPropertiesFixed, Trace.log_forM, TpmlTaggedTpmProperty.list]
  induction List.range properties.count.toNat with
  | nil => rfl
  | cons i is ih => simp [readEffect_dumpProperty, ih]

end TctiUefi.Sapi.CapsFixed
