/-!
# Deterministic identifiers (`des-core/src/ids.rs`)

Component and task ids are derived from a seed, a domain and a counter, all of them `u64`
words, by two rounds of `splitmix64`. A `Uuid` is its 128 bits.
-/

namespace DesCartes

/-- `uuid::Uuid`. -/
abbrev Uuid := BitVec 128

namespace Ids

/-- `splitmix64`. -/
def splitmix64 (x : BitVec 64) : BitVec 64 :=
  let x := x + 0x9E3779B97F4A7C15#64
  let z := x
  let z := (z ^^^ (z >>> 30)) * 0xBF58476D1CE4E5B9#64
  let z := (z ^^^ (z >>> 27)) * 0x94D049BB133111EB#64
  z ^^^ (z >>> 31)

/-- `deterministic_uuid`. -/
def deterministicUuid (seed domain counter : BitVec 64) : Uuid :=
  let x0 := seed ^^^ domain ^^^ counter
  let lo := splitmix64 x0
  let hi := splitmix64 (x0 + 0xD1B54A32D192ED03#64)
  (hi.setWidth 128 <<< 64) ||| lo.setWidth 128

/-- `UUID_DOMAIN_COMPONENT` ("COMPONEN"). -/
def uuidDomainComponent : BitVec 64 := 0x434F4D504F4E454E#64

/-- `UUID_DOMAIN_TASK` ("TASK_ID_"). -/
def uuidDomainTask : BitVec 64 := 0x5441534B5F49445F#64

end Ids

end DesCartes
