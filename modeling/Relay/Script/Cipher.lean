import Relay.Registry
/-!
# A toy cipher

Adds a key to every byte without carries and writes the key into a header; decrypting checks
the header. Doing it twice gives back the payload.
-/
namespace Relay.Script

def keyHeader : String := "x-key"

def mask (key : UInt8) (payload : Bytes) : Bytes := payload.map (· ^^^ key)

theorem mask_mask (key : UInt8) (payload : Bytes) : mask key (mask key payload) = payload := by
  induction payload with
  | nil => rfl
  | cons b bs ih =>
    simp only [mask, List.map_cons] at ih ⊢
    rw [ih, UInt8.xor_assoc, UInt8.xor_self, UInt8.xor_zero]

/-- A cipher that refuses payloads longer than `limit`. -/
def cipher (key : UInt8) (limit : Option Nat) : Cipher where
  encrypt payload h :=
    if limit.any fun n => n < payload.length then
      .error ⟨toString payload.length ++ " bytes are too many"⟩
    else .ok (mask key payload, h.insert keyHeader (toString key.toNat))
  decrypt payload h :=
    match h.get? keyHeader with
    | none => .error ⟨"no key"⟩
    | some k =>
      if k == toString key.toNat then .ok (mask key payload)
      else .error ⟨"wrong key " ++ k⟩

end Relay.Script
