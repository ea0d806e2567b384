import GraphicsTerminal.CommandLine.FileSystem
import GraphicsTerminal.CommandLine.Options
import GraphicsTerminal.CommandLine.Replay
import GraphicsTerminal.Engine.Apply
import GraphicsTerminal.Engine.Basic
import GraphicsTerminal.Engine.Keyboard
import GraphicsTerminal.Engine.Receive
import GraphicsTerminal.Graphics.Hpgl
import GraphicsTerminal.Graphics.Plot
import GraphicsTerminal.Graphics.Point
import GraphicsTerminal.Graphics.State
import GraphicsTerminal.Graphics.Surface
import GraphicsTerminal.Host.Channel
import GraphicsTerminal.Host.Link
import GraphicsTerminal.Host.Reply
import GraphicsTerminal.Host.Transfer
import GraphicsTerminal.Host.Writer
import GraphicsTerminal.Input.Contents
import GraphicsTerminal.Input.Ring
import GraphicsTerminal.Number.Decimal
import GraphicsTerminal.Number.Packed
import GraphicsTerminal.Number.Word
import GraphicsTerminal.Protocol.Action
import GraphicsTerminal.Protocol.ControlSequence
import GraphicsTerminal.Protocol.CursorAddress
import GraphicsTerminal.Protocol.DisplayOp
import GraphicsTerminal.Protocol.ModeOp
import GraphicsTerminal.Protocol.Parser
import GraphicsTerminal.Protocol.SingleCommand
import GraphicsTerminal.Screen.Basic
import GraphicsTerminal.Screen.Cell
import GraphicsTerminal.Screen.Edit
import GraphicsTerminal.Screen.Enhancement
import GraphicsTerminal.Screen.Erase
import GraphicsTerminal.Screen.Memory
import GraphicsTerminal.Screen.Modes
import GraphicsTerminal.Screen.Output
import GraphicsTerminal.Screen.ReadBack
import GraphicsTerminal.Screen.SoftKeys
import GraphicsTerminal.Screen.TabStops
import GraphicsTerminal.Screen.View
import GraphicsTerminal.Sequence.Payload
import GraphicsTerminal.Sequence.Terms
import GraphicsTerminal.Session.Basic
import GraphicsTerminal.Session.Pump
import GraphicsTerminal.Session.Relay
import GraphicsTerminal.Settings.Basic
import GraphicsTerminal.Settings.Duration
import GraphicsTerminal.Settings.Environment
import GraphicsTerminal.Settings.Model
import GraphicsTerminal.Terminal
import GraphicsTerminal.Text.Blank
import GraphicsTerminal.Text.Byte
import GraphicsTerminal.Main
import GraphicsTerminal.Proofs.Engine.Agreement
import GraphicsTerminal.Proofs.Engine.Channels
import GraphicsTerminal.Proofs.Engine.Echo
import GraphicsTerminal.Proofs.Engine.Pending
import GraphicsTerminal.Proofs.Engine.Traffic
import GraphicsTerminal.Proofs.Engine.WellFormed
import GraphicsTerminal.Proofs.Input.Accounting
import GraphicsTerminal.Proofs.Protocol.Framing
import GraphicsTerminal.Proofs.Screen.Addressable
import GraphicsTerminal.Proofs.Screen.Addressing
import GraphicsTerminal.Proofs.Screen.CellwiseProperties
import GraphicsTerminal.Proofs.Screen.FlatMemory
import GraphicsTerminal.Proofs.Screen.FlatScreen
import GraphicsTerminal.Proofs.Screen.WellFormed
import GraphicsTerminal.Proofs.Terminal.Agreement
import GraphicsTerminal.Proofs.Terminal.Chunking
import GraphicsTerminal.Proofs.Terminal.Delivery
import GraphicsTerminal.Proofs.Terminal.Enquiry
import GraphicsTerminal.Proofs.Terminal.Gate
import GraphicsTerminal.Proofs.Terminal.LinkLoss
import GraphicsTerminal.Proofs.Terminal.Log
import GraphicsTerminal.Proofs.Terminal.Refusal
import GraphicsTerminal.Proofs.Terminal.Rest
import GraphicsTerminal.Proofs.Terminal.Run
import GraphicsTerminal.Proofs.Terminal.Stream
import GraphicsTerminal.Proofs.Terminal.WellFormed
import GraphicsTerminal.Proofs.Screen.LinearText
import GraphicsTerminal.Proofs.Engine.Drawing
import GraphicsTerminal.Proofs.Terminal.Picture
import GraphicsTerminal.Proofs.Graphics.PlotBodies
import GraphicsTerminal.Proofs.Graphics.PlotReading
import GraphicsTerminal.Proofs.Terminal.Sequences
import GraphicsTerminal.Proofs.Terminal.PlotSequences
import GraphicsTerminal.Proofs.Input.BoundedDeque
import GraphicsTerminal.Proofs.Session.Pumping
import GraphicsTerminal.Proofs.Session.Turns
import GraphicsTerminal.Proofs.Session.Linearization
import GraphicsTerminal.Proofs.Session.Replaying
import GraphicsTerminal.Proofs.Graphics.HpglLog
import GraphicsTerminal.Proofs.Graphics.HpglReading
import GraphicsTerminal.Proofs.Terminal.Capture
import GraphicsTerminal.Proofs.Protocol.Outlook
import GraphicsTerminal.Proofs.Protocol.Units
import GraphicsTerminal.Proofs.Terminal.Memories
import GraphicsTerminal.Proofs.Terminal.Independence
import GraphicsTerminal.Proofs.Number.Reading
import GraphicsTerminal.Proofs.Protocol.CombinedBodies
import GraphicsTerminal.Proofs.Terminal.Moments
import GraphicsTerminal.Proofs.Terminal.CombinedSequences
import GraphicsTerminal.Proofs.Settings.RejectedValues
import GraphicsTerminal.Proofs.Engine.Labels
import GraphicsTerminal.Proofs.Terminal.ClickWait
import GraphicsTerminal.Proofs.Terminal.ScreenSequences
import GraphicsTerminal.Proofs.Terminal.HardReset
import GraphicsTerminal.Proofs.Terminal.CursorSense
import GraphicsTerminal.Proofs.Number.Grammar
import GraphicsTerminal.Proofs.Protocol.Reached
import GraphicsTerminal.Proofs.Protocol.Interruptions
import GraphicsTerminal.Proofs.Protocol.Addresses
import GraphicsTerminal.Proofs.Protocol.Bodies
import GraphicsTerminal.Proofs.Graphics.AbandonedBodies
import GraphicsTerminal.Proofs.Graphics.Regions
import GraphicsTerminal.Proofs.Graphics.Increments
import GraphicsTerminal.Proofs.Screen.LineEdits
import GraphicsTerminal.Proofs.Screen.CharacterEdits
import GraphicsTerminal.Proofs.Screen.Typing
import GraphicsTerminal.Proofs.Protocol.Parameters
import GraphicsTerminal.Proofs.Screen.Erasures
import GraphicsTerminal.Proofs.Screen.RepeatedLines
import GraphicsTerminal.Proofs.Terminal.ScreenCommands
import GraphicsTerminal.Proofs.Protocol.CapturedTexts
import GraphicsTerminal.Proofs.Terminal.SentLines
import GraphicsTerminal.Proofs.Protocol.OneDigitParameters
import GraphicsTerminal.Proofs.Protocol.CodeLists
import GraphicsTerminal.Proofs.Terminal.Enhancements
import GraphicsTerminal.Proofs.Engine.Transfers
import GraphicsTerminal.Proofs.Terminal.Transfers
import GraphicsTerminal.Proofs.Protocol.Pens
import GraphicsTerminal.Proofs.Engine.CallRanges
import GraphicsTerminal.Proofs.Terminal.Histories
import GraphicsTerminal.Proofs.Terminal.CallRanges
import GraphicsTerminal.Proofs.CommandLine.Answerback
import GraphicsTerminal.Proofs.CommandLine.Files
import GraphicsTerminal.Proofs.Terminal.StepBound
import GraphicsTerminal.Proofs.Number.Positional
import GraphicsTerminal.Proofs.Sequence.Numbers
import GraphicsTerminal.Proofs.Sequence.Operations
import GraphicsTerminal.Proofs.Screen.ReadLines
