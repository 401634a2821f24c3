import ClassRelay.Assembler.Sample
import ClassRelay.Channel.Basic
import ClassRelay.ClassFile.Names
import ClassRelay.Stream.Memory
import ClassRelay.Stream.Transport
import ClassRelay.Proofs.Text.GeneralizedUtf8
import ClassRelay.Proofs.Text.ModifiedUtf8
import ClassRelay.Proofs.Text.Rewriting
import ClassRelay.Proofs.Text.Name
import ClassRelay.Proofs.Assembler.Names
import ClassRelay.Proofs.ClassFile.Tiling
import ClassRelay.Proofs.ClassFile.Truncation
import ClassRelay.Proofs.ClassFile.ErrorKinds
import ClassRelay.Proofs.ClassFile.Policies
import ClassRelay.Proofs.ClassFile.SlotCount
import ClassRelay.Proofs.ClassFile.WalkBounds
import ClassRelay.Proofs.ClassFile.WalkedSlots
import ClassRelay.Proofs.ClassFile.TypedLookups
import ClassRelay.Proofs.ClassFile.Dependencies
import ClassRelay.Proofs.ClassFile.DecodedNames
import ClassRelay.Proofs.ClassFile.InterfaceWalk
import ClassRelay.Proofs.ClassFile.Guesses
import ClassRelay.Proofs.Machine.ExactReads
import ClassRelay.Proofs.Machine.Load
import ClassRelay.Proofs.Channel.Frame
import ClassRelay.Proofs.Channel.Outcomes
import ClassRelay.Proofs.Channel.Contract
import ClassRelay.Proofs.Channel.Delivery
import ClassRelay.Proofs.Channel.Queue
import ClassRelay.Proofs.Channel.RoundTrip
import ClassRelay.Proofs.Channel.Chunking
import ClassRelay.Proofs.Channel.Views
import ClassRelay.Proofs.Stream.WriteContract
import ClassRelay.Proofs.Stream.Interruption
import ClassRelay.Proofs.Session.Replay
import ClassRelay.Proofs.Session.Parties
import ClassRelay.Proofs.Session.Network
