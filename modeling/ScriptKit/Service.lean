import ScriptKit.Bytes.Hex

namespace ScriptKit

/-- The four bytes that name a service in a script. -/
structure ServiceCode where
  bytes : Bytes
  length_eq : bytes.length = 4
deriving DecidableEq

namespace ServiceCode

def ofFour (a b c d : UInt8) : ServiceCode := ⟨[a, b, c, d], rfl⟩

def ofBytes? (bytes : Bytes) : Option ServiceCode :=
  if h : bytes.length = 4 then some ⟨bytes, h⟩ else none

def toText (code : ServiceCode) : String := String.ofList (Hex.encode code.bytes)

end ServiceCode

/-- How the price of a call is found. -/
inductive ServicePrice where
  | fixed (price : Nat)
  /-- A price for each byte of the stored item. -/
  | perByte (price : Nat)
  /-- The price of one signature check for each signature that is asked for. -/
  | perSignature
deriving DecidableEq, Repr

/-- The services, in the order of their table. -/
inductive Service where
  | contractCall | callNative | getCallFlags | createStandardAccount | createMultisigAccount
  | checkSig | checkMultisig | iteratorNext | iteratorValue | platform | getNetwork | getTrigger
  | getTime | getScriptContainer | getExecutingScriptHash | getCallingScriptHash
  | getEntryScriptHash | checkWitness | getInvocationCounter | log | notify | getNotifications
  | gasLeft | burnGas | storageGetContext | storageGetReadOnlyContext | storageAsReadOnly
  | storageGet | storageFind | storagePut | storageDelete
deriving DecidableEq, Inhabited, Repr

namespace Service

/-- The price of one signature check. -/
def checkSigPrice : Nat := 32768

/-- The row of a service in the table. -/
structure Entry where
  name : String
  code : ServiceCode
  price : ServicePrice

def entry : Service → Entry
  | contractCall => ⟨"System.Contract.Call", .ofFour 0x62 0x7d 0x5b 0x52, .fixed 32768⟩
  | callNative => ⟨"System.Contract.CallNative", .ofFour 0x1a 0xf7 0x7b 0x67, .fixed 0⟩
  | getCallFlags => ⟨"System.Contract.GetCallFlags", .ofFour 0x95 0xda 0x3a 0x81, .fixed 1024⟩
  | createStandardAccount =>
    ⟨"System.Contract.CreateStandardAccount", .ofFour 0xcf 0x99 0x87 0x02, .fixed 256⟩
  | createMultisigAccount =>
    ⟨"System.Contract.CreateMultisigAccount", .ofFour 0x6a 0x33 0xe9 0x09, .fixed 256⟩
  | checkSig => ⟨"System.Crypto.CheckSig", .ofFour 0x56 0xe7 0xb3 0x27, .fixed checkSigPrice⟩
  | checkMultisig => ⟨"System.Crypto.CheckMultisig", .ofFour 0x9e 0xd0 0xdc 0x3a, .perSignature⟩
  | iteratorNext => ⟨"System.Iterator.Next", .ofFour 0x9c 0x08 0xed 0x9c, .fixed 32768⟩
  | iteratorValue => ⟨"System.Iterator.Value", .ofFour 0xf3 0x54 0xbf 0x1d, .fixed 16⟩
  | platform => ⟨"System.Runtime.Platform", .ofFour 0xb2 0x79 0xfc 0xf6, .fixed 8⟩
  | getNetwork => ⟨"System.Runtime.GetNetwork", .ofFour 0xc5 0xfb 0xa0 0xe0, .fixed 8⟩
  | getTrigger => ⟨"System.Runtime.GetTrigger", .ofFour 0xe9 0x7d 0x38 0xa0, .fixed 8⟩
  | getTime => ⟨"System.Runtime.GetTime", .ofFour 0xb7 0xc3 0x88 0x03, .fixed 8⟩
  | getScriptContainer =>
    ⟨"System.Runtime.GetScriptContainer", .ofFour 0x2d 0x51 0x08 0x30, .fixed 8⟩
  | getExecutingScriptHash =>
    ⟨"System.Runtime.GetExecutingScriptHash", .ofFour 0xdb 0xfe 0xa8 0x74, .fixed 16⟩
  | getCallingScriptHash =>
    ⟨"System.Runtime.GetCallingScriptHash", .ofFour 0x39 0x53 0x6e 0x3c, .fixed 16⟩
  | getEntryScriptHash =>
    ⟨"System.Runtime.GetEntryScriptHash", .ofFour 0xf9 0xb4 0xe2 0x38, .fixed 16⟩
  | checkWitness => ⟨"System.Runtime.CheckWitness", .ofFour 0xf8 0x27 0xec 0x8c, .fixed 1024⟩
  | getInvocationCounter =>
    ⟨"System.Runtime.GetInvocationCounter", .ofFour 0x84 0x27 0x11 0x43, .fixed 16⟩
  | log => ⟨"System.Runtime.Log", .ofFour 0xcf 0xe7 0x47 0x96, .fixed 32768⟩
  | notify => ⟨"System.Runtime.Notify", .ofFour 0x95 0x01 0x6f 0x61, .fixed 32768⟩
  | getNotifications =>
    ⟨"System.Runtime.GetNotifications", .ofFour 0x27 0x43 0x35 0xf1, .fixed 4096⟩
  | gasLeft => ⟨"System.Runtime.GasLeft", .ofFour 0x14 0x88 0xd8 0xce, .fixed 16⟩
  | burnGas => ⟨"System.Runtime.BurnGas", .ofFour 0xc3 0x5a 0x8c 0xbc, .fixed 16⟩
  | storageGetContext => ⟨"System.Storage.GetContext", .ofFour 0x9b 0xf6 0x67 0xce, .fixed 16⟩
  | storageGetReadOnlyContext =>
    ⟨"System.Storage.GetReadOnlyContext", .ofFour 0xf6 0xb4 0x6b 0xe2, .fixed 16⟩
  | storageAsReadOnly => ⟨"System.Storage.AsReadOnly", .ofFour 0x76 0x4c 0xbf 0xe9, .fixed 16⟩
  | storageGet => ⟨"System.Storage.Get", .ofFour 0x92 0x5d 0xe8 0x31, .fixed 32768⟩
  | storageFind => ⟨"System.Storage.Find", .ofFour 0xdf 0x30 0xb8 0x9a, .fixed 32768⟩
  | storagePut => ⟨"System.Storage.Put", .ofFour 0xe6 0x3f 0x18 0x84, .perByte 100000⟩
  | storageDelete => ⟨"System.Storage.Delete", .ofFour 0x2f 0x58 0xc5 0xed, .fixed 32768⟩

def all : List Service :=
  [.contractCall, .callNative, .getCallFlags, .createStandardAccount, .createMultisigAccount,
   .checkSig, .checkMultisig, .iteratorNext, .iteratorValue, .platform, .getNetwork, .getTrigger,
   .getTime, .getScriptContainer, .getExecutingScriptHash, .getCallingScriptHash,
   .getEntryScriptHash, .checkWitness, .getInvocationCounter, .log, .notify, .getNotifications,
   .gasLeft, .burnGas, .storageGetContext, .storageGetReadOnlyContext, .storageAsReadOnly,
   .storageGet, .storageFind, .storagePut, .storageDelete]

def name (service : Service) : String := service.entry.name

def code (service : Service) : ServiceCode := service.entry.code

def price (service : Service) : ServicePrice := service.entry.price

def ofCode? (code : ServiceCode) : Option Service := all.find? (·.code == code)

def ofName? (name : String) : Option Service := all.find? (·.name == name)

end Service

namespace ServiceCode

/-- The code with the name of its service, if it has one. -/
def describe (code : ServiceCode) : String :=
  match Service.ofCode? code with
  | some service => s!"ServiceCode({code.toText}, {service.name})"
  | none => s!"ServiceCode({code.toText})"

end ServiceCode

end ScriptKit
