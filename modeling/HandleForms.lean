import HandleForms.Main
import HandleForms.Client
import HandleForms.Proofs.Barrier.Safety
import HandleForms.Proofs.Draft.Circles
import HandleForms.Proofs.Draft.Denotes
import HandleForms.Proofs.Edit.Accept
import HandleForms.Proofs.Edit.Context
import HandleForms.Proofs.Edit.Operands
import HandleForms.Proofs.Edit.Permute
import HandleForms.Proofs.Edit.Session
import HandleForms.Proofs.Edit.Total
import HandleForms.Proofs.Edit.Transparency
import HandleForms.Proofs.Handle.Bind
import HandleForms.Proofs.Handle.Combine
import HandleForms.Proofs.Handle.Invokers
import HandleForms.Proofs.Handle.Permute
import HandleForms.Proofs.Handle.Represented
import HandleForms.Proofs.Handle.Return
import HandleForms.Proofs.Handle.Spread
import HandleForms.Proofs.Guard.Safety
import HandleForms.Proofs.Guard.Perform
import HandleForms.Proofs.Retainer.History
import HandleForms.Proofs.Run.Checked
import HandleForms.Proofs.Mirror.Agree
import HandleForms.Proofs.Species.Interning
import HandleForms.Proofs.TypeForm.Sharing
import HandleForms.Proofs.TypeForm.SlotTable
import HandleForms.Proofs.Text.Basic
import HandleForms.Proofs.Ty.Text
import HandleForms.Proofs.Signature.Text
import HandleForms.Proofs.Edit.Text
import HandleForms.Proofs.Form.Slots
import HandleForms.Proofs.Handle.Limits
import HandleForms.Proofs.World.Making
import HandleForms.Proofs.Run.Limits
import HandleForms.Proofs.Run.Greater
import HandleForms.Proofs.Run.Traced
