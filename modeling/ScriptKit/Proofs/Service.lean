import ScriptKit.Service
import ScriptKit.Proofs.Opcode

namespace ScriptKit

theorem ServiceCode.bytes_inj {code other : ServiceCode} (h : code.bytes = other.bytes) :
    code = other := by
  cases code
  cases other
  cases h
  rfl

namespace Service

theorem mem_all (service : Service) : service ∈ all := by
  cases service <;> decide

theorem codes_nodup : (all.map fun service => LittleEndian.toNat service.code.bytes).Nodup := by
  decide +kernel

theorem ofCode?_code (service : Service) : ofCode? service.code = some service :=
  find?_key (List.Nodup.of_map (fun code => LittleEndian.toNat code.bytes)
    (by rw [List.map_map]; exact codes_nodup)) (mem_all service)

theorem code_of_ofCode? {code : ServiceCode} {service : Service} (h : ofCode? code = some service) :
    service.code = code := by
  simpa using List.find?_some h

theorem code_inj {service other : Service} (h : service.code = other.code) : service = other := by
  have hs := ofCode?_code service
  rw [h, ofCode?_code] at hs
  exact (Option.some.inj hs).symm

theorem price_eq_perByte_iff {service : Service} {price : Nat} :
    service.price = .perByte price ↔ service = storagePut ∧ price = 100000 := by
  cases service <;> simp [Service.price, entry, eq_comm]

theorem price_eq_perSignature_iff {service : Service} :
    service.price = .perSignature ↔ service = checkMultisig := by
  cases service <;> simp [Service.price, entry]

end Service
end ScriptKit
