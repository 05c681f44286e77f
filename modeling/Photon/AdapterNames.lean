import Mathlib.Data.List.Induction
import Photon.Keyed
/-!
# AdapterNames — the devices of an uploaded image

`EsxCloudVmxGenerator` turns the devices of an OVF descriptor into options of a virtual machine.  A network adapter gets
its index from its address on the parent, or the first free one of ten.
-/
namespace Photon.ApiFrontend.VmxGenerator

open List
open Keyed (LinkedMap)

inductive DeviceType
  | other | processor | memory | ideController | scsiController | ethernetAdapter | floppyDrive | cdDrive | dvdDrive
  | diskDrive | serialPort | usbController
  deriving DecidableEq

def DeviceType.values : List (DeviceType × Int) :=
  [(.other, 0), (.processor, 3), (.memory, 4), (.ideController, 5), (.scsiController, 6), (.ethernetAdapter, 10),
    (.floppyDrive, 14), (.cdDrive, 15), (.dvdDrive, 16), (.diskDrive, 17), (.serialPort, 21), (.usbController, 23)]

/-- The texts of the elements of a device; `none` is an element that is not there exactly once, and a configuration that
cannot be read. -/
structure Device where
  resourceType : Option String
  subType : Option String
  address : Option String
  addressOnParent : Option String
  config : Option (LinkedMap String String)

inductive Exn
  | invalidOvf (message : String)
  | numberFormat
  | arrayIndexOutOfBounds (index : Nat)
  deriving DecidableEq

/-- `nics` are the adapters with their index and virtual device, in order: the indexes are those set in
`nicDevicesUsage`. -/
structure EsxCloudVmx where
  configuration : LinkedMap String String := .empty
  parameters : List String := []
  nics : List (Nat × String) := []

def deviceOvfToVmx : List (String × String) :=
  [("lsilogic", "lsilogic"), ("buslogic", "buslogic"), ("lsilogicsas", "lsisas1068"), ("virtualscsi", "pvscsi"),
    ("vmxnet", "vmxnet"), ("vmxnet2", "vmxnet2"), ("vmxnet3", "vmxnet3"), ("pcnet32", "vlance"), ("e1000e", "e1000e"),
    ("e1000", "e1000")]

def extraConfigurations : List (String × String) :=
  ["vhv.enable", "bios.bootOrder", "monitor.suspend_on_triplefault", "vmx.allowNested", "bios.bootdeviceclasses"].map
    fun name => (name, name)

def networkPortConfigMap : List (String × String) :=
  [("backing.direction", "network.endPoint"), ("yieldOnPoll", "yieldOnMsrRead")]

def getElementText (tagName : String) (text : Option String) : Except Exn String :=
  text.elim (.error (.invalidOvf ("Element " ++ tagName ++ " not found."))) .ok

def getDeviceSubType (subType : Option String) : Except Exn String := getElementText "rasd:ResourceSubType" subType

/-- `parseInt` is that of Java, here and below. -/
def getDeviceType (parseInt : String → Option Int) (resourceType : Option String) : Except Exn DeviceType :=
  (getElementText "rasd:ResourceType" resourceType).bind fun text =>
    (parseInt text).elim (.error .numberFormat) fun n =>
      .ok (((DeviceType.values.find? fun value => value.2 = n).map Prod.fst).getD .other)

def getVirtualDeviceName (deviceType : String) (subType : Option String) : Except Exn String :=
  (getDeviceSubType subType).bind fun subType =>
    (deviceOvfToVmx.lookup subType.toLower).elim
      (.error (.invalidOvf ("OVF: Unknown " ++ deviceType ++ " device: " ++ subType ++ "."))) .ok

def addConfigOptions (start : String) (desired : List (String × String))
    (actual configuration : LinkedMap String String) : LinkedMap String String :=
  desired.foldl (fun configuration param =>
    (actual.get param.1).elim configuration (configuration.put (start ++ param.2))) configuration

def maxNicDevices : Nat := 10

def nicAddressOffset : Int := 7

/-- The index of an address, or the first that is free. -/
def nicIndex (used : List Nat) (deviceId : Int) : Except Exn Nat :=
  let index := if nicAddressOffset < deviceId then (deviceId - nicAddressOffset).toNat
    else ((List.range maxNicDevices).find? fun k => k ∉ used).getD maxNicDevices
  if index = maxNicDevices then .error (.invalidOvf "No NIC device ID found")
  else if maxNicDevices < index then .error (.arrayIndexOutOfBounds index)
  else .ok index

/-- `getVmwNetworkAdapterName`, as the index in the name. -/
def getVmwNetworkAdapterIndex (parseInt : String → Option Int) (used : List Nat) (addressOnParent : Option String) :
    Except Exn Nat :=
  addressOnParent.elim (nicIndex used 0) fun text => (parseInt text).elim (.error .numberFormat) (nicIndex used)

def ethernetKey (index : Nat) : String := "ethernet" ++ toString index ++ ".virtualDev"

namespace EsxCloudVmx

def addScsiController (vmx : EsxCloudVmx) (device : Device) : Except Exn EsxCloudVmx :=
  (getVirtualDeviceName "SCSIController" device.subType).map fun name =>
    { vmx with configuration := vmx.configuration.put ("scsi" ++ device.address.getD "0" ++ ".virtualDev") name }

def addNetworkAdapter (parseInt : String → Option Int) (vmx : EsxCloudVmx) (device : Device) : Except Exn EsxCloudVmx :=
  (getVmwNetworkAdapterIndex parseInt (vmx.nics.map Prod.fst) device.addressOnParent).bind fun index =>
    (getVirtualDeviceName "EthernetAdapter" device.subType).map fun name =>
      { vmx with configuration := vmx.configuration.put (ethernetKey index) name, nics := vmx.nics ++ [(index, name)] }

def addSerialPortOptions (vmx : EsxCloudVmx) (device : Device) : Except Exn EsxCloudVmx :=
  (getDeviceSubType device.subType).bind fun subType =>
    if subType = "vmware.serialport.uri" then
      device.config.elim (.error (.invalidOvf "Failed to read config: corrupt OVF.")) fun config =>
        .ok { vmx with
          configuration := addConfigOptions "serial0." networkPortConfigMap config
            (vmx.configuration.put "serial0.fileType" "network")
          parameters := vmx.parameters ++ ["serial0.fileName", "serial0.vspc"] }
    else .ok { vmx with parameters := vmx.parameters ++ ["serial0.fileType", "serial0.fileName", "serial0.vspc"] }

def addDevice (parseInt : String → Option Int) (vmx : EsxCloudVmx) (device : Device) : Except Exn EsxCloudVmx :=
  (getDeviceType parseInt device.resourceType).bind fun
    | .scsiController => vmx.addScsiController device
    | .ethernetAdapter => vmx.addNetworkAdapter parseInt device
    | .serialPort => vmx.addSerialPortOptions device
    | _ => .ok vmx

end EsxCloudVmx

def addDeviceOptions (parseInt : String → Option Int) (devices : List Device) : Except Exn EsxCloudVmx :=
  devices.foldl (fun vmx device => vmx.bind (·.addDevice parseInt device)) (.ok {})

def generate (parseInt : String → Option Int) (devices : List Device) (extraConfig : LinkedMap String String) :
    Except Exn EsxCloudVmx :=
  (addDeviceOptions parseInt devices).map fun vmx =>
    { vmx with configuration := addConfigOptions "" extraConfigurations extraConfig vmx.configuration }

/-! ## The names -/

def Device.adapterType (parseInt : String → Option Int) (device : Device) : Option (Option String) :=
  match getDeviceType parseInt device.resourceType with
  | .ok .ethernetAdapter => some device.subType
  | _ => none

structure Named (parseInt : String → Option Int) (devices : List Device) (vmx : EsxCloudVmx) : Prop where
  types : vmx.nics.map (fun nic => .ok nic.2) =
    (devices.filterMap (Device.adapterType parseInt)).map (getVirtualDeviceName "EthernetAdapter")
  distinct : (vmx.nics.map Prod.fst).Nodup
  configured : ∀ nic ∈ vmx.nics, nic.1 < 10 ∧ vmx.configuration.get (ethernetKey nic.1) = some nic.2

def NamedOrInvalid (parseInt : String → Option Int) (devices : List Device) : Except Exn EsxCloudVmx → Prop
  | .ok vmx => Named parseInt devices vmx
  | .error e => ∃ message, e = .invalidOvf message

/-- An address is a number, at most 17, and if this is above 7 the index it stands for is free, unless the type of the
adapter is unknown. -/
def FreeAddress (parseInt : String → Option Int) (used : List Nat) (subType : Option String) (text : String) : Prop :=
  ∃ n, parseInt text = some n ∧ (n ≤ 7 ∨ n = 17 ∨ n < 17 ∧
    ((n - 7).toNat ∉ used ∨ (getVirtualDeviceName "EthernetAdapter" subType).isOk = false))

/-- The resource type, where there is one, is a number; and the address of an adapter, where there is one, is free. -/
structure Free (parseInt : String → Option Int) (used : List Nat) (device : Device) : Prop where
  typed : ∀ text, device.resourceType = some text → parseInt text ≠ none
  free : getDeviceType parseInt device.resourceType = .ok .ethernetAdapter →
    ∀ text, device.addressOnParent = some text → FreeAddress parseInt used device.subType text

section

variable {parseInt : String → Option Int} {used : List Nat}

theorem nicIndex_cases (used : List Nat) (n : Int) :
    (∃ k, nicIndex used n = .ok k ∧ k < 10 ∧ (n ≤ 7 ∧ k ∉ used ∨ 7 < n ∧ n < 17 ∧ k = (n - 7).toNat)) ∨
    (∃ message, nicIndex used n = .error (.invalidOvf message) ∧ (n ≤ 7 ∨ n = 17)) ∨
    17 < n ∧ nicIndex used n = .error (.arrayIndexOutOfBounds (n - 7).toNat) := by
  unfold nicIndex nicAddressOffset maxNicDevices
  dsimp only
  by_cases hlow : n ≤ 7
  · rw [if_neg (Int.not_lt.2 hlow)]
    cases hfree : (range 10).find? fun k => k ∉ used with
    | none => exact .inr (.inl ⟨_, rfl, .inl hlow⟩)
    | some k =>
      have hlt : k < 10 := mem_range.1 (mem_of_find?_eq_some hfree)
      have hnot : k ∉ used := by simpa using find?_some hfree
      rw [Option.getD_some, if_neg (by omega), if_neg (by omega)]
      exact .inl ⟨k, rfl, hlt, .inl ⟨hlow, hnot⟩⟩
  · rw [if_pos (Int.not_le.1 hlow)]
    split
    · exact .inr (.inl ⟨_, rfl, .inr (by omega)⟩)
    · split
      · exact .inr (.inr ⟨by omega, rfl⟩)
      · exact .inl ⟨_, rfl, by omega, .inr ⟨by omega, by omega, rfl⟩⟩

/-- An adapter as it should be gets an index that is free, or none; another gets one that is taken, or ends in an
error. -/
theorem adapterIndex_cases (parseInt : String → Option Int) (used : List Nat)
    (addressOnParent subType : Option String) :
    (∃ k, getVmwNetworkAdapterIndex parseInt used addressOnParent = .ok k ∧ k < 10 ∧
      ((∀ text, addressOnParent = some text → FreeAddress parseInt used subType text) ↔
        k ∉ used ∨ (getVirtualDeviceName "EthernetAdapter" subType).isOk = false)) ∨
    (∃ e, getVmwNetworkAdapterIndex parseInt used addressOnParent = .error e ∧
      ((∀ text, addressOnParent = some text → FreeAddress parseInt used subType text) ↔
        ∃ message, e = .invalidOvf message)) := by
  cases addressOnParent with
  | none =>
    rcases nicIndex_cases used 0 with ⟨k, hk, hlt, hnot | hhigh⟩ | ⟨message, he, -⟩ | ⟨hhigh, -⟩
    · exact .inl ⟨k, hk, hlt, fun _ => .inl hnot.2, fun _ => nofun⟩
    · omega
    · exact .inr ⟨_, he, fun _ => ⟨message, rfl⟩, fun _ => nofun⟩
    · omega
  | some text =>
    simp only [Option.some.injEq, forall_eq', FreeAddress]
    cases hparse : parseInt text with
    | none => exact .inr ⟨.numberFormat, by simp [getVmwNetworkAdapterIndex, hparse], by simp⟩
    | some n =>
      simp only [getVmwNetworkAdapterIndex, Option.elim_some, hparse, Option.some.injEq, exists_eq_left']
      rcases nicIndex_cases used n with ⟨k, hk, hlt, hcase⟩ | ⟨message, he, hn⟩ | ⟨hn, he⟩
      · refine .inl ⟨k, hk, hlt, ?_⟩
        rcases hcase with ⟨hlow, hnot⟩ | ⟨hlow, hhigh, rfl⟩
        · exact ⟨fun _ => .inl hnot, fun _ => .inl hlow⟩
        · refine ⟨fun h => ?_, fun h => .inr (.inr ⟨hhigh, h⟩)⟩
          rcases h with h | h | h
          · omega
          · omega
          · exact h.2
      · exact .inr ⟨_, he, fun _ => ⟨message, rfl⟩, fun _ => hn.imp_right .inl⟩
      · exact .inr ⟨_, he, fun h => by omega, by simp⟩

/-- No other option has the name of an adapter's. -/
theorem ethernetKey_ne {key : String} (h : key.toList.head? ≠ some 'e') (index : Nat) : ethernetKey index ≠ key := by
  rintro rfl
  exact h (by simp [ethernetKey])

theorem get_addConfigOptions {start : String} {desired : List (String × String)}
    (h : ∀ param ∈ desired, (start ++ param.2).toList.head? ≠ some 'e') (actual : LinkedMap String String)
    (index : Nat) :
    ∀ configuration, (addConfigOptions start desired actual configuration).get (ethernetKey index) =
      configuration.get (ethernetKey index) := by
  unfold addConfigOptions
  induction desired with
  | nil => exact fun _ => rfl
  | cons param desired ih =>
    intro configuration
    obtain ⟨hparam, hdesired⟩ := forall_mem_cons.1 h
    rw [foldl_cons, ih hdesired]
    cases actual.get param.1 with
    | none => rfl
    | some value => rw [Option.elim_some, LinkedMap.get_put, if_neg (ethernetKey_ne hparam index)]

/-- A device that is no adapter, and the options after the devices, leave the names as they are. -/
theorem Named.congr {devices devices' : List Device} {vmx vmx' : EsxCloudVmx} (h : Named parseInt devices vmx)
    (htypes : devices'.filterMap (Device.adapterType parseInt) = devices.filterMap (Device.adapterType parseInt))
    (hnics : vmx'.nics = vmx.nics)
    (hget : ∀ index, vmx'.configuration.get (ethernetKey index) = vmx.configuration.get (ethernetKey index)) :
    Named parseInt devices' vmx' := by
  refine ⟨by rw [hnics, htypes, h.types], by rw [hnics]; exact h.distinct, fun nic hnic => ?_⟩
  rw [hget]
  exact h.configured nic (hnics ▸ hnic)

theorem getVirtualDeviceName_error {deviceType : String} {subType : Option String} {e : Exn}
    (h : getVirtualDeviceName deviceType subType = .error e) : ∃ message, e = .invalidOvf message := by
  unfold getVirtualDeviceName getDeviceSubType getElementText at h
  cases subType with
  | none => exact ⟨_, (Except.error.inj h).symm⟩
  | some subType =>
    cases hlookup : deviceOvfToVmx.lookup subType.toLower with
    | none =>
      simp only [Option.elim_some, Except.bind, hlookup, Option.elim_none] at h
      exact ⟨_, (Except.error.inj h).symm⟩
    | some name => simp [Except.bind, hlookup] at h

theorem addScsiController_named {devices : List Device} {vmx : EsxCloudVmx} (h : Named parseInt devices vmx)
    {device : Device} (htype : device.adapterType parseInt = none) :
    NamedOrInvalid parseInt (devices ++ [device]) (vmx.addScsiController device) := by
  rw [EsxCloudVmx.addScsiController]
  cases hname : getVirtualDeviceName "SCSIController" device.subType with
  | error e => exact getVirtualDeviceName_error hname
  | ok name =>
    refine h.congr (by simp [htype]) rfl fun index => ?_
    rw [LinkedMap.get_put, if_neg (ethernetKey_ne (by simp) index)]

theorem addNetworkAdapter_iff {devices : List Device} {vmx : EsxCloudVmx} (h : Named parseInt devices vmx)
    {device : Device} (htype : device.adapterType parseInt = some device.subType) :
    NamedOrInvalid parseInt (devices ++ [device]) (vmx.addNetworkAdapter parseInt device) ↔
      ∀ text, device.addressOnParent = some text →
      FreeAddress parseInt (vmx.nics.map Prod.fst) device.subType text := by
  rw [EsxCloudVmx.addNetworkAdapter]
  rcases adapterIndex_cases parseInt (vmx.nics.map Prod.fst) device.addressOnParent device.subType with
    ⟨k, hk, hlt, hfree⟩ | ⟨e, he, hfree⟩
  · rw [hfree, hk]
    cases hname : getVirtualDeviceName "EthernetAdapter" device.subType with
    | error e => exact iff_of_true (getVirtualDeviceName_error hname) (.inr rfl)
    | ok name =>
      have hok : ¬ Except.isOk (Except.ok name : Except Exn String) = false := Bool.true_eq_false_eq_False
      refine ⟨fun hnamed => .inl fun hmem => ?_, fun hnot => ?_⟩
      · have hdistinct := hnamed.distinct
        rw [map_append, nodup_append] at hdistinct
        exact hdistinct.2.2 k hmem k mem_cons_self rfl
      · have hnew : k ∉ vmx.nics.map Prod.fst := hnot.resolve_right hok
        refine ⟨?_, ?_, fun nic hnic => ?_⟩
        · simp [h.types, htype, hname]
        · rw [map_append, nodup_append]
          refine ⟨h.distinct, nodup_singleton _, fun a ha b hb hab => hnew ?_⟩
          obtain rfl : b = k := mem_singleton.1 hb
          exact hab ▸ ha
        · dsimp only
          rw [LinkedMap.get_put]
          rcases mem_append.1 hnic with hnic | hnic
          · obtain ⟨hbound, hget⟩ := h.configured nic hnic
            have hkeys : ∀ j < 10, ∀ k < 10, ethernetKey j = ethernetKey k → j = k := by decide
            refine ⟨hbound, (if_neg fun hkey => hnew ?_).trans hget⟩
            exact hkeys _ hbound k hlt hkey ▸ mem_map_of_mem hnic
          · obtain rfl := mem_singleton.1 hnic
            exact ⟨hlt, if_pos rfl⟩
  · rw [hfree, he]
    exact Iff.rfl

theorem addSerialPortOptions_named {devices : List Device} {vmx : EsxCloudVmx} (h : Named parseInt devices vmx)
    {device : Device} (htype : device.adapterType parseInt = none) :
    NamedOrInvalid parseInt (devices ++ [device]) (vmx.addSerialPortOptions device) := by
  have htypes : (devices ++ [device]).filterMap (Device.adapterType parseInt) =
      devices.filterMap (Device.adapterType parseInt) := by simp [htype]
  rw [EsxCloudVmx.addSerialPortOptions]
  cases device.subType with
  | none => exact ⟨_, rfl⟩
  | some subType =>
    change NamedOrInvalid _ _ (if subType = "vmware.serialport.uri" then _ else _)
    split
    · cases device.config with
      | none => exact ⟨_, rfl⟩
      | some config =>
        refine h.congr htypes rfl fun index => ?_
        dsimp only
        rw [get_addConfigOptions (by decide), LinkedMap.get_put, if_neg (ethernetKey_ne (by decide) index)]
    · exact h.congr htypes rfl fun _ => rfl

theorem getDeviceType_cases (parseInt : String → Option Int) (resourceType : Option String) :
    (∃ message, getDeviceType parseInt resourceType = .error (.invalidOvf message) ∧ resourceType = none) ∨
    (∃ text, getDeviceType parseInt resourceType = .error .numberFormat ∧ resourceType = some text ∧
      parseInt text = none) ∨
    ∃ text n type, getDeviceType parseInt resourceType = .ok type ∧ resourceType = some text ∧
      parseInt text = some n := by
  cases resourceType with
  | none => exact .inl ⟨_, rfl, rfl⟩
  | some text =>
    cases hparse : parseInt text with
    | none => exact .inr (.inl ⟨text, by simp [getDeviceType, getElementText, Except.bind, hparse], rfl, hparse⟩)
    | some n =>
      have htype : getDeviceType parseInt (some text) =
          .ok (((DeviceType.values.find? fun value => value.2 = n).map Prod.fst).getD .other) := by
        simp [getDeviceType, getElementText, Except.bind, hparse]
      exact .inr (.inr ⟨text, n, _, htype, rfl, hparse⟩)

theorem addDevice_iff {devices : List Device} {vmx : EsxCloudVmx} (h : Named parseInt devices vmx) (device : Device) :
    NamedOrInvalid parseInt (devices ++ [device]) (vmx.addDevice parseInt device) ↔
      Free parseInt (vmx.nics.map Prod.fst) device := by
  rw [EsxCloudVmx.addDevice]
  rcases getDeviceType_cases parseInt device.resourceType with
    ⟨message, htype, hnone⟩ | ⟨text, htype, htext, hparse⟩ | ⟨text, n, type, htype, htext, hparse⟩
  · rw [htype]
    refine iff_of_true ⟨message, rfl⟩ ⟨fun text htext => ?_, fun hadapter => ?_⟩
    · rw [hnone] at htext
      cases htext
    · rw [htype] at hadapter
      cases hadapter
  · rw [htype]
    refine iff_of_false (fun hinvalid => ?_) fun hfree => hfree.typed text htext hparse
    obtain ⟨message, hmessage⟩ := hinvalid
    cases hmessage
  · have htyped : ∀ text', device.resourceType = some text' → parseInt text' ≠ none := by
      intro text' htext'
      cases htext.symm.trans htext'
      simp [hparse]
    have hfree : Free parseInt (vmx.nics.map Prod.fst) device ↔ (type = .ethernetAdapter → ∀ text,
        device.addressOnParent = some text → FreeAddress parseInt (vmx.nics.map Prod.fst) device.subType text) :=
      ⟨fun hfree hadapter => hfree.free (hadapter ▸ htype), fun hfree => ⟨htyped, fun hadapter =>
        hfree (Except.ok.inj (htype.symm.trans hadapter))⟩⟩
    have hadapter : device.adapterType parseInt = if type = .ethernetAdapter then some device.subType else none := by
      rw [Device.adapterType, htype]
      cases type <;> rfl
    rw [htype, hfree]
    cases type with
    | scsiController => exact iff_of_true (addScsiController_named h hadapter) nofun
    | ethernetAdapter => exact (addNetworkAdapter_iff h hadapter).trans ⟨fun hall _ => hall, fun hall => hall rfl⟩
    | serialPort => exact iff_of_true (addSerialPortOptions_named h hadapter) nofun
    | _ =>
      refine iff_of_true (h.congr ?_ rfl fun _ => rfl) nofun
      rw [filterMap_append, filterMap_cons_none hadapter, filterMap_nil, append_nil]

theorem addDeviceOptions_snoc (devices : List Device) (device : Device) :
    addDeviceOptions parseInt (devices ++ [device]) =
    (addDeviceOptions parseInt devices).bind (·.addDevice parseInt device) := by
  rw [addDeviceOptions, foldl_append]
  rfl

theorem generate_iff (devices : List Device) (extraConfig : LinkedMap String String) :
    NamedOrInvalid parseInt devices (generate parseInt devices extraConfig) ↔
      NamedOrInvalid parseInt devices (addDeviceOptions parseInt devices) := by
  unfold generate
  cases addDeviceOptions parseInt devices with
  | error e => exact Iff.rfl
  | ok vmx =>
    have hget : ∀ index, (addConfigOptions "" extraConfigurations extraConfig vmx.configuration).get
        (ethernetKey index) =
        vmx.configuration.get (ethernetKey index) := fun index => get_addConfigOptions (by decide) extraConfig index _
    exact ⟨fun h => h.congr rfl rfl fun index => (hget index).symm, fun h => h.congr rfl rfl hget⟩

end

/-- **The names of network adapters.**  For a list of devices and all its initial parts the generator throws an
`InvalidOvfException` or gives the adapters distinct names, each with the virtual device of its type, exactly if no
resource type is other than a number, and no adapter's address is other than a number up to 17, nor stands for an index
that an earlier adapter has. -/
theorem generate_names_iff (parseInt : String → Option Int) (devices : List Device)
    (extraConfig : LinkedMap String String) :
    (∀ pre, pre <+: devices → NamedOrInvalid parseInt pre (generate parseInt pre extraConfig)) ↔
    ∀ pre device, pre ++ [device] <+: devices → ∀ vmx, addDeviceOptions parseInt pre = .ok vmx →
      Free parseInt (vmx.nics.map Prod.fst) device := by
  simp only [generate_iff]
  constructor
  · intro h pre device hpre vmx hvmx
    have hnamed := h pre (prefix_append _ _ |>.trans hpre)
    have hnext := h _ hpre
    rw [hvmx] at hnamed
    rw [addDeviceOptions_snoc, hvmx] at hnext
    exact (addDevice_iff hnamed device).1 hnext
  · intro h pre
    induction pre using reverseRecOn with
    | nil => exact fun _ => ⟨rfl, nodup_nil, by simp⟩
    | append_singleton pre device ih =>
      intro hpre
      have hnamed := ih (prefix_append _ _ |>.trans hpre)
      rw [addDeviceOptions_snoc]
      cases hvmx : addDeviceOptions parseInt pre with
      | error e =>
        rw [hvmx] at hnamed
        exact hnamed
      | ok vmx =>
        rw [hvmx] at hnamed
        exact (addDevice_iff hnamed device).2 (h pre device hpre vmx hvmx)

def adapter (addressOnParent subType : String) : Device := ⟨some "10", some subType, none, some addressOnParent, none⟩

def someNumbers : String → Option Int
  | "8" => some 8
  | "10" => some 10
  | "18" => some 18
  | _ => none

def colliding : List Device := [adapter "8" "e1000", adapter "8" "vmxnet3"]

def outOfRange : List Device := [adapter "18" "e1000"]

def untyped : List Device := [⟨some "nic", none, none, none, none⟩]

/-- Two adapters with address 8 get one name, an adapter with address 18 is out of range, and a resource type that is no
number ends in another exception. -/
theorem generate_names_collide :
    ((generate someNumbers colliding .empty).map (fun vmx => (vmx.nics, vmx.configuration.entries)) =
        .ok ([(1, "e1000"), (1, "vmxnet3")], [("ethernet1.virtualDev", "vmxnet3")]) ∧
      ¬ NamedOrInvalid someNumbers colliding (generate someNumbers colliding .empty)) ∧
    (generate someNumbers outOfRange .empty = .error (.arrayIndexOutOfBounds 11) ∧
      ¬ NamedOrInvalid someNumbers outOfRange (generate someNumbers outOfRange .empty)) ∧
    generate someNumbers untyped .empty = .error .numberFormat ∧
      ¬ NamedOrInvalid someNumbers untyped (generate someNumbers untyped .empty) := by
  have hvalue : (generate someNumbers colliding .empty).map (fun vmx => (vmx.nics, vmx.configuration.entries)) =
      .ok ([(1, "e1000"), (1, "vmxnet3")], [("ethernet1.virtualDev", "vmxnet3")]) := by decide +kernel
  have hrange : generate someNumbers outOfRange .empty = .error (.arrayIndexOutOfBounds 11) := rfl
  have huntyped : generate someNumbers untyped .empty = .error .numberFormat := rfl
  refine ⟨⟨hvalue, fun hnamed => ?_⟩, ⟨hrange, fun hnamed => ?_⟩, huntyped, fun hnamed => ?_⟩
  · cases hvmx : generate someNumbers colliding .empty with
    | error e =>
      rw [hvmx] at hvalue
      cases hvalue
    | ok vmx =>
      rw [hvmx] at hvalue hnamed
      have hnics : vmx.nics = [(1, "e1000"), (1, "vmxnet3")] := congrArg Prod.fst (Except.ok.inj hvalue)
      have hdistinct := hnamed.distinct
      rw [hnics] at hdistinct
      revert hdistinct
      decide
  · rw [hrange] at hnamed
    obtain ⟨message, hmessage⟩ := hnamed
    cases hmessage
  · rw [huntyped] at hnamed
    obtain ⟨message, hmessage⟩ := hnamed
    cases hmessage

end Photon.ApiFrontend.VmxGenerator
