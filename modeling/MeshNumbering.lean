import MeshNumbering.Config.Text
import MeshNumbering.Main
import MeshNumbering.Proofs.Network.Agreement
import MeshNumbering.Proofs.Network.Progress
import MeshNumbering.Proofs.Network.Renumbering
import MeshNumbering.Rehearsal
import MeshNumbering.Proofs.NodeLists
import MeshNumbering.Proofs.Scenario.Rows
import MeshNumbering.Proofs.Scenario.Elements
import MeshNumbering.Proofs.Network.Results
import MeshNumbering.Proofs.Network.Workers
import MeshNumbering.Proofs.Strategy
import MeshNumbering.Proofs.Scenario.Plain
import MeshNumbering.Proofs.Message.Length
import MeshNumbering.Proofs.Scenario.Fits
import MeshNumbering.Proofs.Network.Success
import MeshNumbering.Proofs.Message.Grammar
import MeshNumbering.Proofs.Network.Aborts
import MeshNumbering.Proofs.Network.Lone
import MeshNumbering.Proofs.Processor.Barriers
import MeshNumbering.Proofs.Processor.Intake
import MeshNumbering.Proofs.Resolution
import MeshNumbering.Proofs.Numbering.Course
import MeshNumbering.Proofs.Network.Schedule
import MeshNumbering.Proofs.Numbering.Answers
import MeshNumbering.Proofs.Shipment.Course
import MeshNumbering.Proofs.Relabelling
import MeshNumbering.Proofs.Holdings.Index
import MeshNumbering.Proofs.Mesh.Centroid
import MeshNumbering.Proofs.Mesh.Reading
import MeshNumbering.Proofs.Scenario.InMemory
import MeshNumbering.Proofs.Network.Assignment
import MeshNumbering.Proofs.Mesh.Conforming
import MeshNumbering.Proofs.Exchange
import MeshNumbering.Proofs.CommandLine
import MeshNumbering.Proofs.Config.Text
import MeshNumbering.Proofs.RollCall.Arrivals
import MeshNumbering.Proofs.Processor.Backlog
