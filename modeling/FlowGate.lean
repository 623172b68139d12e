import FlowGate.Bytes.Hex
import FlowGate.Text.Blank
import FlowGate.Text.UpperCase
import FlowGate.Text.Quoted
import FlowGate.Text.Digit
import FlowGate.Decimal.Shortest
import FlowGate.Decimal.Number
import FlowGate.Decimal.Reading
import FlowGate.Hash.Blake3
import FlowGate.Hash.Sha256
import FlowGate.Signature.Ed25519
import FlowGate.Script.Basic
import FlowGate.Gate.Role
import FlowGate.Gate.Fragment
import FlowGate.Presign.Config
import FlowGate.Value.Arithmetic
import FlowGate.Machine.Run
import FlowGate.Assembly.Disassemble
import FlowGate.Gate.Parts
import FlowGate.Flow.Workers
import FlowGate.Flow.Calibration
import FlowGate.Presign.Flow
import FlowGate.Gate.Spend
import FlowGate.Checked.Script
import FlowGate.Checked.Flow
import FlowGate.Checked.Bench
import FlowGate.Checked.Stack
import FlowGate.Checked.Tape
import FlowGate.Checked.Presign
import FlowGate.Main
import FlowGate.Proofs.Gate.Swallowing
import FlowGate.Proofs.Gate.Witness
import FlowGate.Proofs.Gate.FlowSelection
import FlowGate.Proofs.Flow.Progress
import FlowGate.Proofs.Text.UpperCase
import FlowGate.Proofs.Assembly.Names
import FlowGate.Proofs.Assembly.Registration
import FlowGate.Proofs.Assembly.Reading
import FlowGate.Proofs.Assembly.WellNamed
import FlowGate.Proofs.Assembly.RoundTrip
import FlowGate.Proofs.Assembly.Lossless
import FlowGate.Proofs.Assembly.Extension
import FlowGate.Proofs.Assembly.Joining
import FlowGate.Proofs.Assembly.Items
import FlowGate.Proofs.Gate.Registration
import FlowGate.Proofs.Machine.Limits
import FlowGate.Proofs.Machine.Starts
import FlowGate.Proofs.Machine.InTurn
import FlowGate.Proofs.Machine.Lending
import FlowGate.Proofs.Gate.Remembering
import FlowGate.Proofs.Gate.Faithful
import FlowGate.Proofs.Presign.Flow
import FlowGate.Proofs.Flow.Window
import FlowGate.Proofs.Gate.Distinct
import FlowGate.Proofs.Gate.Hashing
import FlowGate.Proofs.Gate.Width
import FlowGate.Proofs.CommandLine
import FlowGate.Proofs.Machine.Failing
import FlowGate.Proofs.Gate.FirstFault
import FlowGate.Proofs.Gate.Mislabeled
import FlowGate.Proofs.Decimal.Quotient
import FlowGate.Proofs.Gate.Limbs
import FlowGate.Proofs.Script.Canonical
import FlowGate.Proofs.Script.Shortest
import FlowGate.Proofs.Gate.Threshold
import FlowGate.Proofs.Gate.Matching
import FlowGate.Proofs.Bytes.Nibbles
import FlowGate.Proofs.Flow.Prefix
import FlowGate.Proofs.Presign.AnyOrder
import FlowGate.Proofs.Machine.Base
import FlowGate.Proofs.Assembly.InPlace
import FlowGate.Proofs.Flow.Odds
import FlowGate.Proofs.Assembly.LetterCase
import FlowGate.Proofs.Assembly.DecimalLiteral
import FlowGate.Proofs.Script.Truth
import FlowGate.Proofs.Assembly.Comments
import FlowGate.Proofs.Machine.Position
