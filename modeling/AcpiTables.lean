import AcpiTables.Aml.Term
import AcpiTables.Assembly
import AcpiTables.Log.Session
import AcpiTables.Platform.ConfigurationText
import AcpiTables.Platform.Population
import AcpiTables.Proofs.Tree.Arena
import AcpiTables.Proofs.Tree.Forest
import AcpiTables.Proofs.Tree.Walk
import AcpiTables.Proofs.Tree.Conditions
import AcpiTables.Proofs.Tree.Runs
import AcpiTables.Proofs.Tree.Sound
import AcpiTables.Proofs.Tree.Reachable
import AcpiTables.Proofs.Assembly
import AcpiTables.Proofs.Aml.Package
import AcpiTables.Proofs.Aml.Object
import AcpiTables.Proofs.Tree.Subtree
import AcpiTables.Proofs.Generated
import AcpiTables.Proofs.Tree.Build
import AcpiTables.Proofs.Views
import AcpiTables.Proofs.Tree.Grown
import AcpiTables.Proofs.Tree.Edited
import AcpiTables.Proofs.Resource.Interrupt
import AcpiTables.Proofs.Ends
import AcpiTables.Proofs.Declarations
import AcpiTables.Proofs.Shape
import AcpiTables.Proofs.Tree.Events
import AcpiTables.Proofs.History
import AcpiTables.Proofs.Template
import AcpiTables.Proofs.Checks
import AcpiTables.Proofs.Platform.Configuration
import AcpiTables.Proofs.Aml.Spelling
import AcpiTables.Proofs.Members
import AcpiTables.Proofs.Platform.ConfigurationText
import AcpiTables.Proofs.Platform.Accepting
import AcpiTables.Proofs.Renaming
import AcpiTables.Proofs.Aml.LengthField
import AcpiTables.Proofs.Aml.DataObject
import AcpiTables.Proofs.Resource.Codec
import AcpiTables.Proofs.Resource.Cutting
import AcpiTables.Proofs.Attaching
import AcpiTables.Proofs.Exchanging
import AcpiTables.Proofs.Deleting
import AcpiTables.Proofs.Walking
import AcpiTables.Proofs.Locality
import AcpiTables.Proofs.Linking
import AcpiTables.Proofs.Declaring
import AcpiTables.Proofs.HardwareId
import AcpiTables.Proofs.Platform.Reading
