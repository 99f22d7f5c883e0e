import Ccat.Native.Types

/-!
# Systemtime function block (`systemtime.c`)

The CCAT has a counter of 64 bits that the driver registers as a clocksource. `readq()`
is the one of `linux/io-64-nonatomic-lo-hi.h`: it reads the two words of the counter one
after the other, and the counter goes on in between.

Registers change on their own, so what is behind an address depends on the moment
`t : T` at which it is read.
-/

namespace Ccat.Native.Systemtime

def CCAT_SYSTEMTIME_RATING : Nat := 140
def CLOCK_SOURCE_IS_CONTINUOUS : Nat := 0x01
def NSEC_PER_SEC : Nat := 1000000000

/-- `CLOCKSOURCE_MASK(bits)`. -/
def CLOCKSOURCE_MASK (bits : Nat) : BitVec 64 := BitVec.ofNat 64 (2 ^ bits - 1)

/-- `struct clocksource`, as far as the driver fills it in. -/
structure Clocksource where
  /-- `NULL` when there was no memory for it. -/
  name : Option String
  rating : Nat
  mask : BitVec 64
  mult : Nat
  shift : Nat
  flags : Nat

/-- `struct ccat_systemtime`. -/
structure CcatSystemtime where
  ioaddr : Nat
  clock : Clocksource

/-! ## Reading the counter -/

/-- The words of the device, by address and moment. -/
abbrev Words (T : Type) := Nat → T → BitVec 32

/-- `readq()` of `linux/io-64-nonatomic-lo-hi.h`: the low word is read at `lo`, the high word at
    `hi`. -/
def readq {T : Type} (io : Words T) (addr : Nat) (lo hi : T) : BitVec 64 :=
  (io addr lo).setWidth 64 + (io (addr + 4) hi).setWidth 64 <<< 32

/-- `ccat_systemtime_get()`. -/
def ccatSystemtimeGet {T : Type} (io : Words T) (systemtime : CcatSystemtime) (lo hi : T) :
    BitVec 64 :=
  readq io systemtime.ioaddr lo hi

/-! ## Probe -/

/-- What the kernel answers to a probe. -/
structure Answers where
  /-- `devm_kzalloc()` does not return `NULL`. -/
  kzalloc : Bool
  /-- `devm_kasprintf()` does not return `NULL`. -/
  kasprintf : Bool
  /-- The result of `clocksource_register_hz()`. -/
  register : Int

/-- What a probe leaves behind. -/
structure Probe where
  ret : Int
  /-- `ccat_systemtime_cnt`. -/
  cnt : Int
  /-- `func->private_data`. -/
  privateData : Option CcatSystemtime
  /-- The clocksource that is registered, with its frequency. -/
  registered : Option (Clocksource × Nat)

/-- `cnt++` of an `int`, which wraps: the kernel is built with `-fno-strict-overflow`. -/
def intInc (cnt : Int) : Int := (cnt + 1).bmod (2 ^ 32)

/-- `ccat_systemtime_probe()`; `addr` is `func->info.addr`. -/
def ccatSystemtimeProbe (a : Answers) (bar0 addr : Nat) (cnt : Int) : Probe :=
  if a.kzalloc then
    let clock : Clocksource :=
      { name := if a.kasprintf then some ("ccat" ++ toString cnt) else none
        rating := CCAT_SYSTEMTIME_RATING
        mask := CLOCKSOURCE_MASK 32
        mult := 1
        shift := 0
        flags := CLOCK_SOURCE_IS_CONTINUOUS }
    { ret := a.register
      cnt := intInc cnt
      privateData := some ⟨bar0 + addr, clock⟩
      registered := if a.register = 0 then some (clock, NSEC_PER_SEC) else none }
  else
    { ret := -ENOMEM, cnt := cnt, privateData := none, registered := none }

end Ccat.Native.Systemtime
