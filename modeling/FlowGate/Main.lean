import FlowGate.CommandLine
import FlowGate.Primitives

/-!
# The program

Runs a method of the command line, prints what it prints, and ends as it ends. Chance comes from the
system, and the clock for the hash rate too.
-/

namespace FlowGate.Main

/-- Hashes messages of an input until the clock has passed a time. -/
partial def hashUntil (stop : Nat) (input nonce : Nat) : IO Nat := do
  if (← IO.monoNanosNow) ≥ stop then return nonce
  else
    let digest := Primitives.standard.hash (Flow.message input nonce)
    if digest.bytes.isEmpty then return nonce
    else hashUntil stop input (nonce + 1)

/-- Measures the hash rate over a number of seconds and prints it. -/
def measure (seconds : UInt64) : IO UInt32 := do
  let start ← IO.monoNanosNow
  let window := (Float.ofBits seconds * 1000000000.0).toUInt64.toNat
  let hashes ← hashUntil (start + window) 123 0
  let elapsed := Float.ofNat ((← IO.monoNanosNow) - start) / 1000000000.0
  match (Calibration.mk (.whole hashes) (.float elapsed.toBits)).rate with
  | .ok rate => IO.println (Calibration.rateLine rate)
  | .error error => IO.eprintln error.message
  return 0

/-- Does what an outcome asks for. -/
def finish : CommandLine.Outcome → IO UInt32
  | .exit code printed => do
    IO.print printed
    return UInt32.ofNat code
  | .failed error printed => do
    IO.print printed
    IO.eprintln error.message
    return 1
  | .measure seconds => measure seconds

end FlowGate.Main

/-- Runs the method that the arguments name. -/
def main (arguments : List String) : IO UInt32 := do
  let chance := (← IO.getRandomBytes 32).toList
  FlowGate.Main.finish
    (FlowGate.CommandLine.run .standard .standard chance ("flowgate" :: arguments))
