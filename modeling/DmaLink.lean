import DmaLink.Main
import DmaLink.Proofs.CommandLine.SelfTest
import DmaLink.Proofs.Engine.Addressing
import DmaLink.Proofs.Engine.Concurrent
import DmaLink.Proofs.Engine.Creation
import DmaLink.Proofs.Engine.Interchange
import DmaLink.Proofs.Engine.Rejections
import DmaLink.Proofs.Engine.Retry
import DmaLink.Proofs.Engine.Singly
import DmaLink.Proofs.Engine.Startup
import DmaLink.Proofs.Interrupt.Accounting
import DmaLink.Proofs.Layer.Classification
import DmaLink.Proofs.Layer.Weights
import DmaLink.Proofs.Loopback.Passage
import DmaLink.Proofs.Queue.Closing
import DmaLink.Proofs.Queue.Recovery
import DmaLink.Proofs.Queue.Timeouts
import DmaLink.Proofs.Queue.Winding
import DmaLink.Proofs.Settings.Rendering
import DmaLink.Proofs.Window.Splits
import DmaLink.Proofs.Window.Views
import DmaLink.Script
